import Barnamaj.Proofs.Code.Names
import Barnamaj.Symbol.Usage
import Mathlib.Data.List.Nodup

/-!
# Uses of names in programs

A program uses names in the order in which they stand in the text (`Program.uses`): they are exactly
the names among the tokens of its body. Checking the tree of a program finds the first use of a name
that is not declared, and no other fault.
-/

namespace Barnamaj

/-! ### Uses -/

/-- The use of a name: its token, and whether a value is read into it. -/
structure NameUse where
  token : Token
  reading : Bool := false

namespace NameUse

/-- The fault of a use of a name that is not declared. -/
def fault (u : NameUse) : SemanticFault :=
  if u.reading then .undeclaredForReading u.token.lexeme u.token.position
  else .undeclared u.token.lexeme u.token.position

/-- The fault of the first use of a name that is not declared. -/
def firstFault (declared : String → Bool) (uses : List NameUse) : Except SemanticFault Unit :=
  match uses.find? fun u => !declared u.token.lexeme with
  | none => .ok ()
  | some u => .error u.fault

variable {declared : String → Bool}

lemma firstFault_singleton (u : NameUse) :
    firstFault declared [u] = if declared u.token.lexeme then .ok () else .error u.fault := by
  by_cases h : declared u.token.lexeme = true <;> simp [firstFault, h]

lemma firstFault_append (us vs : List NameUse) :
    firstFault declared (us ++ vs) =
      (do firstFault declared us; firstFault declared vs) := by
  simp only [firstFault, List.find?_append]
  cases us.find? fun u => !declared u.token.lexeme <;> rfl

end NameUse

/-- The uses of names in an expression. -/
def Expression.uses (e : Expression) : List NameUse :=
  e.reads.map fun t => { token := t }

/-- The uses of names in an item. -/
def PrintItem.uses (i : PrintItem) : List NameUse :=
  i.reads.map fun t => { token := t }

/-- The uses of names in a statement. -/
def Statement.uses : Statement → List NameUse
  | .assignment target e => { token := target } :: e.uses
  | .print _ items => items.flatMap PrintItem.uses
  | .read _ target => [{ token := target, reading := true }]

/-- The uses of names in a program. -/
def Program.uses (p : Program) : List NameUse :=
  p.statements.flatMap Statement.uses

/-! ### Checks -/

namespace Node

variable {declared : String → Bool}

lemma check_accessNode (t : Token) :
    t.accessNode.check declared = NameUse.firstFault declared [{ token := t }] := by
  rw [NameUse.firstFault_singleton]
  rfl

lemma check_expression (e : Expression) :
    e.toNode.check declared = NameUse.firstFault declared e.uses := by
  induction e with
  | literal t => rfl
  | access t => exact check_accessNode t
  | unary op operand ih => exact ih
  | binary op left right ihl ihr =>
    rw [Expression.toNode, check, ihl, ihr]
    simp only [Expression.uses, Expression.reads, List.map_append, NameUse.firstFault_append]
    cases NameUse.firstFault declared (left.reads.map fun t => { token := t }) <;> rfl

lemma check_printItem (i : PrintItem) :
    i.toNode.check declared = NameUse.firstFault declared i.uses := by
  cases i with
  | literal t => rfl
  | access t => exact check_accessNode t

/-- Several nodes are checked one after the other. -/
lemma checkAll_map {α : Type} {toNode : α → Node} {uses : α → List NameUse}
    (h : ∀ a, (toNode a).check declared = NameUse.firstFault declared (uses a)) (as : List α) :
    checkAll declared (as.map toNode) = NameUse.firstFault declared (as.flatMap uses) := by
  induction as with
  | nil => rfl
  | cons a as ih =>
    rw [List.map_cons, checkAll, h, ih, List.flatMap_cons, NameUse.firstFault_append]
    cases NameUse.firstFault declared (uses a) <;> rfl

lemma check_statement (s : Statement) :
    s.toNode.check declared = NameUse.firstFault declared s.uses := by
  cases s with
  | assignment target e =>
    rw [Statement.uses, ← List.singleton_append, NameUse.firstFault_append,
      NameUse.firstFault_singleton, ← check_expression]
    simp only [Statement.toNode, Token.accessNode, check]
    split <;> rfl
  | print keyword items => exact checkAll_map check_printItem items
  | read keyword target =>
    rw [Statement.uses, NameUse.firstFault_singleton]
    rfl

end Node

/-- Checking a program finds the first use of a name that is not declared. -/
lemma analyze_program (env : Environment) (p : Program) :
    env.analyze p.toNode = NameUse.firstFault env.declares p.uses :=
  Node.checkAll_map Node.check_statement p.statements

/-! ### Names among tokens -/

/-- The tokens between the first opening brace and the closing brace that comes next. -/
def enclosed (ts : List Token) : List Token :=
  ((ts.dropWhile (·.kind ≠ .lbrace)).drop 1).takeWhile (·.kind ≠ .rbrace)

variable {n : Nat} {ts us : List Token}

lemma Expression.map_token_uses (e : Expression) : e.uses.map NameUse.token = e.reads := by
  simp [uses, Function.comp_def]

lemma PrintItem.map_token_uses (is : List PrintItem) :
    (is.flatMap PrintItem.uses).map NameUse.token = is.flatMap PrintItem.reads := by
  simp [uses, List.map_flatMap, Function.comp_def]

lemma DerivesStatement.filter_isName {s : Statement} (h : DerivesStatement n ts s) :
    ts.filter Token.isName = s.uses.map NameUse.token := by
  cases h with
  | @assignment target sign _ ts e ht hs he =>
    rw [List.filter_cons_of_pos (by simp [Token.isName, ht]),
      List.filter_cons_of_neg (by simp [Token.isName_eq_false hs]), he.filter_isName,
      Statement.uses, List.map_cons, Expression.map_token_uses]
  | @print keyword l t r ts i is hk hl ht hs hr =>
    rw [List.filter_cons_of_neg (by simp [Token.isName_eq_false hk]),
      List.filter_cons_of_neg (by simp [Token.isName_eq_false hl]), ← List.singleton_append,
      List.filter_append, List.filter_append, ht.filter_isName, hs.filter_isName,
      List.filter_cons_of_neg (by simp [Token.isName_eq_false hr]), List.filter_nil,
      List.append_nil, Statement.uses, PrintItem.map_token_uses, List.flatMap_cons]
  | read hk hl ht hr =>
    simp [Token.isName, hk, hl, ht, hr, Statement.uses]

/-- The names in the body of a program are those that it uses, in the order of the text. -/
lemma DerivesBody.filter_isName {statements : List Statement} (h : DerivesBody n ts statements) :
    ts.filter Token.isName = (statements.flatMap Statement.uses).map NameUse.token := by
  induction h with
  | nil => rfl
  | last hs => simpa using hs.filter_isName
  | cons hs hc _ ih =>
    rw [List.filter_append, List.filter_cons_of_neg (by simp [Token.isName_eq_false hc]),
      hs.filter_isName, ih, List.flatMap_cons, List.map_append]

/-- What the braces of a program enclose is its body. -/
lemma enclosed_of_body {keyword name semicolon l r : Token} {statements : List Statement}
    {vs : List Token} (hk : keyword.kind = .programKw) (hn : name.kind = .identifier)
    (hc : semicolon.kind = .semicolon) (hl : l.kind = .lbrace)
    (hs : DerivesBody n us statements) (hr : r.kind = .rbrace) :
    enclosed (keyword :: name :: semicolon :: l :: (us ++ r :: vs)) = us := by
  have hbrace : ∀ t ∈ us, t.kind ≠ .rbrace :=
    fun t ht => ne_of_mem_of_not_mem (hs.kind_mem t ht) (by decide)
  have hinside : (us ++ r :: vs).takeWhile (·.kind ≠ .rbrace) = us := by
    rw [List.takeWhile_append_of_pos (by simpa using hbrace),
      List.takeWhile_cons_of_neg (by simp [hr]), List.append_nil]
  simpa [enclosed, hk, hn, hc, hl] using hinside

lemma DerivesProgram.enclosed_eq {p : Program} (h : DerivesProgram n ts p) :
    (enclosed ts).filter Token.isName = p.uses.map NameUse.token ∧ enclosed ts <:+: ts := by
  obtain @⟨keyword, name, semicolon, l, r, dot, ending, _, us, _, hk, hn, hc, hl, hs, hr, hd, he⟩ := h
  rw [enclosed_of_body hk hn hc hl hs hr]
  exact ⟨hs.filter_isName, [keyword, name, semicolon, l], [r, dot, ending], by simp⟩

/-! ### Targets of read statements -/

lemma Statement.reading_of_mem_uses {s : Statement} {u : NameUse} (h : u ∈ s.uses)
    (hr : u.reading = true) : ∃ keyword, s = .read keyword u.token := by
  cases s with
  | assignment target e =>
    rcases List.mem_cons.mp h with rfl | h
    · cases hr
    · obtain ⟨t, -, rfl⟩ := List.mem_map.mp h
      cases hr
  | print keyword items =>
    obtain ⟨i, -, h⟩ := List.mem_flatMap.mp h
    obtain ⟨t, -, rfl⟩ := List.mem_map.mp h
    cases hr
  | read keyword target =>
    obtain rfl := List.mem_singleton.mp h
    exact ⟨keyword, rfl⟩

/-- If no token is used twice, a value is read into a name exactly if it is the target of a read
statement. -/
lemma Program.reading_iff {p : Program} {u : NameUse} (h : u ∈ p.uses)
    (hp : (p.uses.map NameUse.token).Nodup) :
    u.reading = true ↔ ∃ keyword, Statement.read keyword u.token ∈ p.statements := by
  constructor
  · intro hr
    obtain ⟨s, hs, hu⟩ := List.mem_flatMap.mp h
    obtain ⟨keyword, rfl⟩ := Statement.reading_of_mem_uses hu hr
    exact ⟨keyword, hs⟩
  · rintro ⟨keyword, hs⟩
    have hmem : { token := u.token, reading := true } ∈ p.uses :=
      List.mem_flatMap.mpr ⟨_, hs, List.mem_singleton_self _⟩
    rw [List.inj_on_of_nodup_map hp h hmem rfl]

end Barnamaj
