import Barnamaj.Text.Character
import Barnamaj.Text.Quoted

/-!
# Arguments

The arguments of the command line are switches, values of switches, and the path of the source
text. Each argument is first sorted by its spelling (`Argument.sort`), with the rules that

* a long switch may be cut short as long as no other switch starts in the same way,
* short switches may share one dash, and a value may follow its short switch at once,
* the first `=` divides a switch from the text attached to it,
* a negative number, or anything with a space in it, is no switch,
* behind `--` there are no switches.

Then the sorted arguments are read from left to right. Arguments that belong nowhere are collected,
and refused at the end.

Earlier and later releases of the argument reader differ in what they make of a short switch that
takes no value and has something else than short switches behind it. Both ways are given
(`Bundling`), and what is stated about runs is stated for both.
-/

namespace Barnamaj.CommandLine

open Text

/-- The switches. -/
inductive Switch where
  | help
  | declare
  | tokens
  | tree
  | output
  | verbose
deriving DecidableEq

namespace Switch

/-- The spellings of the switches. -/
def spellings : List (String × Switch) :=
  [("-h", .help),
   ("--help", .help),
   ("-D", .declare),
   ("--tokens", .tokens),
   ("--ast", .tree),
   ("-o", .output),
   ("-v", .verbose),
   ("--verbose", .verbose)]

/-- All spellings of a switch together. -/
def label (s : Switch) : String :=
  "/".intercalate ((spellings.filter (·.2 == s)).map (·.1))

/-- Whether a switch takes a value. -/
def takesValue : Switch → Bool
  | .declare => true
  | .output => true
  | _ => false

end Switch

/-- What is wrong with the arguments. -/
inductive UsageFault where
  | ambiguous (argument : String) (candidates : List String)
  | missingValue (s : Switch)
  | ignoredValue (s : Switch) (value : String)
  | missingSource
  | unrecognized (arguments : List String)
deriving DecidableEq

/-- The text of a usage fault. -/
def UsageFault.text : UsageFault → String
  | .ambiguous argument candidates =>
    "ambiguous option: " ++ argument ++ " could match " ++ ", ".intercalate candidates
  | .missingValue s => "argument " ++ s.label ++ ": expected one argument"
  | .ignoredValue s value =>
    "argument " ++ s.label ++ ": ignored explicit argument " ++ quoted value
  | .missingSource => "the following arguments are required: source"
  | .unrecognized arguments => "unrecognized arguments: " ++ " ".intercalate arguments

/-! ### Sorting -/

/-- The text attached to a switch, and whether an `=` stands between them. -/
structure Attachment where
  equals : Bool
  text : List Char

/-- An argument by its spelling: plain text, the end of the switches, a switch with the text
attached to it, or something that looks like a switch and is none. -/
inductive Argument where
  | plain (text : String)
  | separator
  | switch (s : Switch) (long : Bool) (attached : Option Attachment)
  | unknown (text : String)

namespace Argument

/-- Whether a text without its dash is a number: digits, or digits with a point in front of the last
of them. One line feed at the end does not count. -/
def isNumber (cs : List Char) : Bool :=
  let whole := cs.takeWhile isDigit
  let ends (rest : List Char) : Bool := rest.isEmpty || rest == ['\n']
  match cs.dropWhile isDigit with
  | '.' :: rest => !(rest.takeWhile isDigit).isEmpty && ends (rest.dropWhile isDigit)
  | rest => !whole.isEmpty && ends rest

/-- The text behind the first `=`, if there is one. -/
def behindEquals (cs : List Char) : Option (List Char) :=
  match cs.dropWhile (· != '=') with
  | [] => none
  | _ :: rest => some rest

/-- Sort an argument that starts with a dash and has more characters, but is no full spelling. -/
def sortDashed (argument : String) (cs : List Char) : Except UsageFault Argument :=
  let front := cs.takeWhile (· != '=')
  let attached := (behindEquals cs).map (Attachment.mk true)
  let isLong (spelling : String) : Bool := "--".toList.isPrefixOf spelling.toList
  match attached.bind fun _ => Switch.spellings.lookup (String.ofList front) with
  | some s => .ok (.switch s (isLong (String.ofList front)) attached)
  | none =>
    let candidates : List (String × Argument) :=
      if "--".toList.isPrefixOf cs then
        (Switch.spellings.filter (front.isPrefixOf ·.1.toList)).map fun (spelling, s) =>
          (spelling, .switch s (isLong spelling) attached)
      else
        (Switch.spellings.filter (·.1.toList == cs.take 2)).map fun (spelling, s) =>
          (spelling, .switch s false (some ⟨false, cs.drop 2⟩))
    match candidates with
    | [(_, found)] => .ok found
    | [] =>
      if isNumber (cs.drop 1) || cs.contains ' ' then .ok (.plain argument)
      else .ok (.unknown argument)
    | _ => .error (.ambiguous argument (candidates.map (·.1)))

/-- Sort one argument in front of the end of the switches. -/
def sort (argument : String) : Except UsageFault Argument :=
  match Switch.spellings.lookup argument, argument.toList with
  | some s, cs => .ok (.switch s ("--".toList.isPrefixOf cs) none)
  | none, '-' :: c :: rest => sortDashed argument ('-' :: c :: rest)
  | none, _ => .ok (.plain argument)

/-- Sort all arguments. -/
def sortAll : List String → Except UsageFault (List Argument)
  | [] => .ok []
  | argument :: rest =>
    if argument = "--" then .ok (.separator :: rest.map .plain)
    else
      match sort argument with
      | .error f => .error f
      | .ok a => (sortAll rest).map (a :: ·)

end Argument

/-! ### Reading -/

/-- How short switches behind one dash are told from other text. -/
inductive Bundling where
  /-- The earlier way. An `=` is passed over behind the first switch, and is a character like any
  other behind a later one. Text that starts with no switch is a value, which the switch in front of
  it does not take. -/
  | lenient
  /-- The later way. An `=` makes the text behind it a value of the switch in front of it. Other
  text that starts with no switch belongs nowhere, unless it starts with a dash. -/
  | strict
deriving DecidableEq

/-- The switches that one argument names: those without a value, in order, and one with a value at
the end, which may still be to come, or text that belongs nowhere. -/
structure Bundle where
  flags : List Switch := []
  valued : Option (Switch × Option String) := none
  extras : List String := []

namespace Bundle

/-- A switch with nothing attached. -/
def single (s : Switch) : Bundle :=
  if s.takesValue then { valued := some (s, none) } else { flags := [s] }

/-- Put a switch without a value in front of others. -/
def after (s : Switch) (b : Bundle) : Bundle :=
  { b with flags := s :: b.flags }

/-- A switch with a text that can only be its value. -/
def value (s : Switch) (text : List Char) : Except UsageFault Bundle :=
  if s.takesValue then .ok { valued := some (s, some (String.ofList text)) }
  else .error (.ignoredValue s (String.ofList text))

/-- A switch without a value and text behind it that starts with no switch. -/
def stray (bundling : Bundling) (s : Switch) (text : List Char) : Except UsageFault Bundle :=
  if bundling = .strict ∧ text.head? ≠ some '-' then
    .ok { flags := [s], extras := [String.ofList ('-' :: text)] }
  else value s text

/-- A short switch with text right behind it: its value, or further short switches. -/
def packed (bundling : Bundling) (s : Switch) : List Char → Except UsageFault Bundle
  | [] => value s []
  | c :: rest =>
    if s.takesValue then value s (c :: rest)
    else
      match Switch.spellings.lookup (String.ofList ['-', c]), rest with
      | none, rest => stray bundling s (c :: rest)
      | some next, [] => .ok (after s (single next))
      | some next, d :: rest =>
        if bundling = .strict ∧ d = '=' then (value next rest).map (after s)
        else (packed bundling next (d :: rest)).map (after s)

/-- The switches of a switch with or without text attached. Nothing is packed behind a long one. -/
def ofSwitch (bundling : Bundling) (s : Switch) (long : Bool) :
    Option Attachment → Except UsageFault Bundle
  | none => .ok (single s)
  | some a =>
    if long ∨ bundling = .strict ∧ a.equals then value s a.text else packed bundling s a.text

end Bundle

/-- What the arguments ask for, as far as they have been read. -/
structure Settings where
  source : Option String := none
  specs : List String := []
  tokens : Bool := false
  tree : Bool := false
  output : Option String := none
  verbose : Bool := false
  /-- Arguments that belong nowhere. -/
  extras : List String := []

/-- Why reading the arguments stops early: help was asked for, or something is wrong. -/
inductive Stop where
  | help
  | usage (f : UsageFault)
deriving DecidableEq

namespace Settings

variable (set : Settings)

/-- Turn on a switch without a value. -/
def turnOn : Switch → Except Stop Settings
  | .help => .error .help
  | .tokens => .ok { set with tokens := true }
  | .tree => .ok { set with tree := true }
  | .verbose => .ok { set with verbose := true }
  | _ => .ok set

/-- Turn on switches one after the other. -/
def turnOnAll (set : Settings) : List Switch → Except Stop Settings
  | [] => .ok set
  | s :: rest =>
    match set.turnOn s with
    | .error e => .error e
    | .ok set => turnOnAll set rest

/-- Give a switch its value. -/
def store (s : Switch) (value : String) : Settings :=
  match s with
  | .declare => { set with specs := set.specs ++ [value] }
  | .output => { set with output := some value }
  | _ => set

/-- Collect arguments that belong nowhere. -/
def refuse (arguments : List String) : Settings :=
  { set with extras := set.extras ++ arguments }

/-- Read sorted arguments. The first plain one is the source, and an end mark next to it is passed
over. -/
def interpret (bundling : Bundling) (set : Settings) : List Argument → Except Stop Settings
  | [] => .ok set
  | .plain a :: .separator :: rest =>
    if set.source.isNone then interpret bundling { set with source := some a } rest
    else interpret bundling (set.refuse [a, "--"]) rest
  | .plain a :: rest =>
    if set.source.isNone then interpret bundling { set with source := some a } rest
    else interpret bundling (set.refuse [a]) rest
  | .separator :: .plain a :: rest =>
    if set.source.isNone then interpret bundling { set with source := some a } rest
    else interpret bundling (set.refuse ["--", a]) rest
  | .separator :: rest => interpret bundling (set.refuse ["--"]) rest
  | .unknown a :: rest => interpret bundling (set.refuse [a]) rest
  | .switch s long attached :: rest =>
    match Bundle.ofSwitch bundling s long attached with
    | .error f => .error (.usage f)
    | .ok b =>
      match b.valued with
      | none =>
        match set.turnOnAll b.flags with
        | .error e => .error e
        | .ok set => interpret bundling (set.refuse b.extras) rest
      | some (s, some value) =>
        match set.turnOnAll b.flags with
        | .error e => .error e
        | .ok set => interpret bundling (set.store s value) rest
      | some (s, none) =>
        -- The value is the next argument, which is looked for before any switch takes effect.
        match rest with
        | .plain value :: rest =>
          match set.turnOnAll b.flags with
          | .error e => .error e
          | .ok set => interpret bundling (set.store s value) rest
        | _ => .error (.usage (.missingValue s))

end Settings

/-- A run that the arguments ask for. -/
structure Job where
  source : String
  specs : List String
  tokens : Bool
  tree : Bool
  output : Option String
  verbose : Bool
deriving DecidableEq

/-- The run that settings amount to, if they name a source and nothing is left over. An empty path
asks for no output file. -/
def Settings.job (set : Settings) : Except Stop Job :=
  match set.source with
  | none => .error (.usage .missingSource)
  | some source =>
    if set.extras.isEmpty then
      .ok { source, specs := set.specs, tokens := set.tokens, tree := set.tree,
            output := set.output.filter (· != ""), verbose := set.verbose }
    else .error (.usage (.unrecognized set.extras))

/-- The run that arguments ask for. -/
def Job.ofArguments (arguments : List String) (bundling : Bundling := .lenient) :
    Except Stop Job :=
  match Argument.sortAll arguments with
  | .error f => .error (.usage f)
  | .ok sorted =>
    match Settings.interpret bundling {} sorted with
    | .error e => .error e
    | .ok set => set.job

/-! ### Help -/

/-- The version of the program. -/
def version : String := "0.1.0"

/-- How the program is called. -/
def usageLine : String :=
  "usage: arcc [-h] [-D NAME[:TYPE]] [--tokens] [--ast] [-o OUTPUT] [-v] source\n"

/-- What the program and its arguments do. -/
def helpText : String :=
  usageLine ++ "\n" ++
  "Arabic-keyword compiler front end\n" ++
  "\n" ++
  "positional arguments:\n" ++
  "  source          Input source file (UTF-8)\n" ++
  "\n" ++
  "options:\n" ++
  "  -h, --help      show this help message and exit\n" ++
  "  -D NAME[:TYPE]  Pre-declare a variable (type defaults to صحيح)\n" ++
  "  --tokens        Print the token stream and stop\n" ++
  "  --ast           Print the syntax tree and stop\n" ++
  "  -o OUTPUT       Write the intermediate code listing here\n" ++
  "  -v, --verbose   Log pipeline progress to stderr\n"

/-- What is said about wrong arguments. -/
def UsageFault.report (f : UsageFault) : String :=
  usageLine ++ "arcc: error: " ++ f.text ++ "\n"

end Barnamaj.CommandLine
