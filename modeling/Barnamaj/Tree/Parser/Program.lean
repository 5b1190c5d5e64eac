import Barnamaj.Tree.Parser.Expression

/-!
# Parsing programs

The grammar of statements and programs, with `[…]` for an optional part and `*` for any number of
repetitions:

    program   := PROGRAM name ';' '{' [statement (';' statement)* [';']] '}' '.' EOF
    statement := name '=' expression | PRINT '(' item (',' item)* ')' | READ '(' name ')'
    item      := string | character | name

Statements and items are read in loops, each turn of which consumes a token.
-/

namespace Barnamaj

namespace Parse

variable {σ : Type} [Supply σ]

/-! ### Items -/

/-- A variable: a bare name. -/
def variableName : ParseFrom σ Token := expect .variableName

/-- What a print statement prints. -/
def printItem : ParseFrom σ PrintItem := do
  match ← accept [.stringLiteral, .charLiteral] with
  | some token => return .literal token
  | none => return .access (← variableName)

/-- A further item, if a comma announces one. -/
def nextItem : ParseFrom σ (Option PrintItem) := do
  match ← accept [.comma] with
  | none => return none
  | some _ => return some (← printItem)

theorem consumes_variableName : Consumes (variableName : ParseFrom σ Token) :=
  consumes_expect (by decide)

theorem consumes_printItem : Consumes (printItem : ParseFrom σ PrintItem) :=
  (consumesSome_accept (by decide)).bind (keeps_accept _) (fun token => keeps_pure _)
    (consumes_variableName.bind fun token => keeps_pure _)

theorem keeps_nextItem : Keeps (nextItem : ParseFrom σ (Option PrintItem)) := by
  refine (keeps_accept _).bind fun found => ?_
  cases found with
  | none => exact keeps_pure none
  | some _ => exact consumes_printItem.keeps.bind fun item => keeps_pure _

theorem consumesSome_nextItem :
    ConsumesSome (nextItem : ParseFrom σ (Option PrintItem)) := by
  intro p a q h
  obtain ⟨found, r, hr, h⟩ := bind_eq_ok h
  cases found with
  | none => cases h
  | some _ =>
    obtain ⟨item, s, hs, h⟩ := bind_eq_ok h
    cases h
    exact Nat.lt_of_lt_of_le (consumes_printItem r a q hs) (keeps_accept _ p _ r hr)

/-! ### Statements -/

/-- The rest of an assignment. -/
def assignmentTo (target : Token) : ParseFrom σ Statement := do
  let _ ← expect .assignmentSign
  return .assignment target (← wholeExpression)

/-- The rest of a print statement. -/
def printWith (keyword : Token) : ParseFrom σ Statement := do
  let _ ← expect .printOpening
  let first ← printItem
  let others ← collect nextItem consumesSome_nextItem
  let _ ← expect .printClosing
  return .print keyword (first :: others)

/-- The rest of a read statement. -/
def readWith (keyword : Token) : ParseFrom σ Statement := do
  let _ ← expect .readOpening
  let target ← variableName
  let _ ← expect .readClosing
  return .read keyword target

/-- A statement, told by its first token. -/
def statement : ParseFrom σ Statement := do
  match ← accept [.identifier] with
  | some target => assignmentTo target
  | none =>
    match ← accept [.printKw] with
    | some keyword => printWith keyword
    | none =>
      match ← accept [.readKw] with
      | some keyword => readWith keyword
      | none => fail .noStatement

/-- What stands between a statement and the next one: a semicolon, unless the block ends here. -/
def separator : ParseFrom σ Unit := do
  match ← accept [.semicolon] with
  | some _ => return ()
  | none =>
    if (← current).kind = .rbrace then return ()
    else fail .unseparated

/-- A further statement and its separator, unless the block or the text ends here. -/
def nextStatement : ParseFrom σ (Option Statement) := do
  if (← current).kind ∈ [.rbrace, .eof] then return none
  else
    let s ← statement
    separator
    return some s

theorem keeps_assignmentTo (target : Token) :
    Keeps (assignmentTo target : ParseFrom σ Statement) :=
  (keeps_expect _).bind fun _ => consumes_wholeExpression.keeps.bind fun _ => keeps_pure _

theorem keeps_printWith (keyword : Token) :
    Keeps (printWith keyword : ParseFrom σ Statement) :=
  (keeps_expect _).bind fun _ => consumes_printItem.keeps.bind fun _ =>
    (keeps_collect consumesSome_nextItem keeps_nextItem).bind fun _ =>
      (keeps_expect _).bind fun _ => keeps_pure _

theorem keeps_readWith (keyword : Token) :
    Keeps (readWith keyword : ParseFrom σ Statement) :=
  (keeps_expect _).bind fun _ => consumes_variableName.keeps.bind fun _ =>
    (keeps_expect _).bind fun _ => keeps_pure _

theorem consumes_statement : Consumes (statement : ParseFrom σ Statement) :=
  (consumesSome_accept (by decide)).bind (keeps_accept _) keeps_assignmentTo <|
    (consumesSome_accept (by decide)).bind (keeps_accept _) keeps_printWith <|
      (consumesSome_accept (by decide)).bind (keeps_accept _) keeps_readWith (consumes_fail _)

theorem keeps_separator : Keeps (separator : ParseFrom σ Unit) := by
  refine (keeps_accept _).bind fun found => ?_
  cases found with
  | some _ => exact keeps_pure ()
  | none =>
    refine keeps_current.bind fun token => ?_
    split
    · exact keeps_pure ()
    · exact (consumes_fail _).keeps

theorem consumesSome_nextStatement :
    ConsumesSome (nextStatement : ParseFrom σ (Option Statement)) := by
  intro p a q h
  obtain ⟨token, r, hr, h⟩ := bind_eq_ok h
  cases hr
  split at h
  · cases h
  · refine (consumes_statement.bind fun s => ?_) p (some a) q h
    exact keeps_separator.bind fun _ => keeps_pure _

/-! ### Programs -/

/-- A whole program, up to the end of the text. -/
def program : ParseFrom σ Program := do
  let keyword ← expect .programStart
  let name ← expect .programName
  let _ ← expect .programNameEnd
  let brace ← expect .blockStart
  let statements ← collect nextStatement consumesSome_nextStatement
  let _ ← expect .blockEnd
  let _ ← expect .programEnd
  let _ ← expect .endOfFile
  return { position := keyword.position, name := name.lexeme,
           bodyPosition := brace.position, statements }

end Parse

/-- The tree of what a supply holds, or the first fault in it. -/
def parseFrom {σ : Type} [Supply σ] (s : σ) : Except ParseError Program :=
  match Parser.ofSupply s with
  | .error e => .error (.lexical e)
  | .ok p =>
    match Parse.program p with
    | .ok tree _ => .ok tree
    | .error e _ => .error e

/-- The tree of a source text, or the first fault in it. -/
def parse (source : String) : Except ParseError Program :=
  parseFrom (Cursor.ofSource source)

end Barnamaj
