import Barnamaj.Tree.Parser.Step
import Barnamaj.Tree.Basic

/-!
# Parsing expressions

The grammar of expressions, with `[…]` for an optional part and `*` for any number of repetitions:

    expression := simple [relational simple]
    simple     := [('+' | '-')] term (('+' | '-') term)*
    term       := factor (multiplicative factor)*
    factor     := literal | name | '(' expression ')' | '!' factor

Two limits bound an expression: how many `(` and `!` are open at once, and the height of its tree.
They are also why parsing ends: a factor opens one level less than the factor around it may, and
every turn of a chain of operators makes the tree higher.
-/

namespace Barnamaj

/-- The number of `(` and `!` that may be open at once. -/
def maxNesting : Nat := 100

/-- The greatest height of an expression. -/
def maxHeight : Nat := 250

namespace Parse

variable {σ : Type} [Supply σ]

/-- An expression, if it is not too high; the fault is that of its outermost operator. -/
def checkHeight (operator : Token) (e : Expression) : ParseFrom σ Expression :=
  if e.height ≤ maxHeight then return e
  else throw (.grammar ⟨.tooHigh, operator⟩)

/-- Join operands from the left as long as an operator of the given kinds follows. -/
def chain (kinds : List TokenKind) (operand : ParseFrom σ Expression) (left : Expression) :
    ParseFrom σ Expression := do
  match ← accept kinds with
  | none => return left
  | some operator =>
    let right ← operand
    if _h : (Expression.binary operator left right).height ≤ maxHeight then
      chain kinds operand (.binary operator left right)
    else throw (.grammar ⟨.tooHigh, operator⟩)
termination_by maxHeight - left.height
decreasing_by
  simp only [Expression.height] at _h ⊢
  omega

/-- Factors joined by multiplicative operators. -/
def term (factor : ParseFrom σ Expression) : ParseFrom σ Expression := do
  let first ← factor
  chain TokenKind.multiplicative factor first

/-- A term under the sign in front of it, if there is one. -/
def underSign (sign : Option Token) (e : Expression) : ParseFrom σ Expression :=
  match sign with
  | none => return e
  | some operator => checkHeight operator (.unary operator e)

/-- Terms joined by additive operators; a sign in front covers the first term. -/
def simple (factor : ParseFrom σ Expression) : ParseFrom σ Expression := do
  let sign ← accept TokenKind.additive
  let first ← term factor
  let signed ← underSign sign first
  chain TokenKind.additive (term factor) signed

/-- One simple expression, or two with a relational operator between them. -/
def expression (factor : ParseFrom σ Expression) : ParseFrom σ Expression := do
  let left ← simple factor
  match ← accept TokenKind.relational with
  | none => return left
  | some operator =>
    let right ← simple factor
    checkHeight operator (.binary operator left right)

/-- A constant or a name, if the current token is one. -/
def atom : ParseFrom σ (Option Expression) := do
  match ← accept TokenKind.literal with
  | some token => return some (.literal token)
  | none => return (← accept [.identifier]).map .access

/-- Refuse a token that starts no factor, or that would open one level too many. A level that is
refused stays counted as open. -/
def refuse : ParseFrom σ Expression := do
  if (← current).kind ∈ [.lparen, .not] then
    modify fun p => { p with depth := p.depth + 1 }
    fail .nestedTooDeeply
  else
    fail .noFactor

/-- A factor inside of which a number of further levels may be opened. -/
def factor : Nat → ParseFrom σ Expression
  | 0 => do
    match ← atom with
    | some e => return e
    | none => refuse
  | levels + 1 => do
    match ← atom with
    | some e => return e
    | none =>
      match ← accept [.not] with
      | some operator =>
        let operand ← factor levels
        checkHeight operator (.unary operator operand)
      | none =>
        match ← accept [.lparen] with
        | some _ =>
          let e ← expression (factor levels)
          let _ ← expect .closingParenthesis
          return e
        | none => refuse

/-- An expression, with the levels that are not counted as open already. -/
def wholeExpression : ParseFrom σ Expression := do
  let p ← get
  expression (factor (maxNesting - p.depth))

/-! ### Progress -/

theorem keeps_checkHeight (operator : Token) (e : Expression) :
    Keeps (checkHeight operator e : ParseFrom σ Expression) := by
  rw [checkHeight]
  split
  · exact keeps_pure e
  · exact keeps_throw _

theorem keeps_chain (kinds : List TokenKind) {operand : ParseFrom σ Expression} (ho : Keeps operand)
    (left : Expression) : Keeps (chain kinds operand left) := by
  induction hn : maxHeight - left.height using Nat.strongRecOn generalizing left with
  | _ n ih =>
    rw [chain]
    refine (keeps_accept kinds).bind fun found => ?_
    cases found with
    | none => exact keeps_pure left
    | some operator =>
      refine ho.bind fun right => ?_
      split
      · next h =>
        refine ih _ ?_ (.binary operator left right) rfl
        simp only [Expression.height] at h ⊢
        omega
      · exact keeps_throw _

theorem consumes_term {factor : ParseFrom σ Expression} (hf : Consumes factor) :
    Consumes (term factor) :=
  hf.bind fun first => keeps_chain _ hf.keeps first

theorem consumes_simple {factor : ParseFrom σ Expression} (hf : Consumes factor) :
    Consumes (simple factor) := by
  refine (keeps_accept _).bind_consumes fun sign => ?_
  refine (consumes_term hf).bind fun first => ?_
  refine Keeps.bind ?_ fun signed => keeps_chain _ (consumes_term hf).keeps signed
  cases sign with
  | none => exact keeps_pure first
  | some operator => exact keeps_checkHeight operator _

theorem consumes_expression {factor : ParseFrom σ Expression} (hf : Consumes factor) :
    Consumes (expression factor) := by
  refine (consumes_simple hf).bind fun left => (keeps_accept _).bind fun found => ?_
  cases found with
  | none => exact keeps_pure left
  | some operator =>
    exact (consumes_simple hf).keeps.bind fun right => keeps_checkHeight operator _

theorem keeps_atom : Keeps (atom : ParseFrom σ (Option Expression)) := by
  refine (keeps_accept _).bind fun found => ?_
  cases found with
  | some token => exact keeps_pure _
  | none => exact (keeps_accept _).bind fun found => keeps_pure _

theorem consumesSome_atom : ConsumesSome (atom : ParseFrom σ (Option Expression)) := by
  intro p e q h
  obtain ⟨found, r, hr, h⟩ := bind_eq_ok h
  cases found with
  | some token =>
    cases h
    exact consumesSome_accept (by decide) p token q hr
  | none =>
    obtain ⟨found, s, hs, h⟩ := bind_eq_ok h
    cases found with
    | none => cases h
    | some token =>
      cases h
      exact Nat.lt_of_lt_of_le (consumesSome_accept (by decide) r token q hs)
        (keeps_accept _ p _ r hr)

theorem consumes_refuse : Consumes (refuse : ParseFrom σ Expression) := by
  refine keeps_current.bind_consumes fun token => ?_
  split
  · refine Keeps.bind_consumes ?_ fun _ => consumes_fail _
    intro p u q h
    cases h
    exact Nat.le_refl _
  · exact consumes_fail _

theorem consumes_factor (levels : Nat) :
    Consumes (factor levels : ParseFrom σ Expression) := by
  induction levels with
  | zero => exact consumesSome_atom.bind keeps_atom (fun e => keeps_pure e) consumes_refuse
  | succ levels ih =>
    refine consumesSome_atom.bind keeps_atom (fun e => keeps_pure e) ?_
    refine (consumesSome_accept (by decide)).bind (keeps_accept _) (fun operator => ?_) ?_
    · exact ih.keeps.bind fun operand => keeps_checkHeight operator _
    · refine (consumesSome_accept (by decide)).bind (keeps_accept _) (fun _ => ?_) consumes_refuse
      exact (consumes_expression ih).keeps.bind fun e =>
        (keeps_expect _).bind fun _ => keeps_pure e

theorem consumes_wholeExpression : Consumes (wholeExpression : ParseFrom σ Expression) := by
  refine Keeps.bind_consumes ?_ fun p => consumes_expression (consumes_factor _)
  intro p a q h
  cases h
  exact Nat.le_refl _

end Parse

end Barnamaj
