import Barnamaj.Proofs.Token.Tokenize
import Barnamaj.Tree.Basic

/-!
# Derivations

The grammar of the language as a relation between lists of tokens and the trees they stand for.
Operators associate to the left, so the rules of a level recur on the left, where a grammar in
extended notation has a repetition:

    expression := simple [relational simple]
    simple     := [('+' | '-')] term (('+' | '-') term)*
    term       := factor (multiplicative factor)*
    factor     := literal | name | '(' expression ')' | '!' factor

A derivation also counts its nesting: how many factors `( … )` and `! …` stand inside each other at
the deepest place. Nothing bounds this number, nor the height of a tree, in the grammar itself.
-/

namespace Barnamaj

/-- The levels of expressions, the tightest first. -/
inductive Level where
  | factor
  | term
  | simple
  | expression
deriving DecidableEq

/-! ### Rules -/

/-- `Derives l n ts e`: at level `l`, the tokens `ts` stand for `e` with nesting `n`. -/
inductive Derives : Level → Nat → List Token → Expression → Prop where
  | literal {t : Token} (ht : t.kind ∈ TokenKind.literal) : Derives .factor 0 [t] (.literal t)
  | access {t : Token} (ht : t.kind = .identifier) : Derives .factor 0 [t] (.access t)
  | not {op : Token} {n : Nat} {ts : List Token} {e : Expression} (hop : op.kind = .not)
      (he : Derives .factor n ts e) : Derives .factor (n + 1) (op :: ts) (.unary op e)
  | parens {l r : Token} {n : Nat} {ts : List Token} {e : Expression} (hl : l.kind = .lparen)
      (he : Derives .expression n ts e) (hr : r.kind = .rparen) :
      Derives .factor (n + 1) (l :: (ts ++ [r])) e
  | ofFactor {n : Nat} {ts : List Token} {e : Expression} (he : Derives .factor n ts e) :
      Derives .term n ts e
  | multiply {op : Token} {m n : Nat} {ts us : List Token} {a b : Expression}
      (ha : Derives .term m ts a) (hop : op.kind ∈ TokenKind.multiplicative)
      (hb : Derives .factor n us b) :
      Derives .term (max m n) (ts ++ op :: us) (.binary op a b)
  | ofTerm {n : Nat} {ts : List Token} {e : Expression} (he : Derives .term n ts e) :
      Derives .simple n ts e
  | sign {op : Token} {n : Nat} {ts : List Token} {e : Expression}
      (hop : op.kind ∈ TokenKind.additive) (he : Derives .term n ts e) :
      Derives .simple n (op :: ts) (.unary op e)
  | add {op : Token} {m n : Nat} {ts us : List Token} {a b : Expression}
      (ha : Derives .simple m ts a) (hop : op.kind ∈ TokenKind.additive)
      (hb : Derives .term n us b) :
      Derives .simple (max m n) (ts ++ op :: us) (.binary op a b)
  | ofSimple {n : Nat} {ts : List Token} {e : Expression} (he : Derives .simple n ts e) :
      Derives .expression n ts e
  | relate {op : Token} {m n : Nat} {ts us : List Token} {a b : Expression}
      (ha : Derives .simple m ts a) (hop : op.kind ∈ TokenKind.relational)
      (hb : Derives .simple n us b) :
      Derives .expression (max m n) (ts ++ op :: us) (.binary op a b)

/-- What may be printed: a string, a character or a variable. -/
inductive DerivesItem : Token → PrintItem → Prop where
  | literal {t : Token} (ht : t.kind ∈ [TokenKind.stringLiteral, .charLiteral]) :
      DerivesItem t (.literal t)
  | access {t : Token} (ht : t.kind = .identifier) : DerivesItem t (.access t)

/-- Further items, each behind a comma. -/
inductive DerivesItems : List Token → List PrintItem → Prop where
  | nil : DerivesItems [] []
  | cons {comma t : Token} {ts : List Token} {i : PrintItem} {is : List PrintItem}
      (hc : comma.kind = .comma) (ht : DerivesItem t i) (hs : DerivesItems ts is) :
      DerivesItems (comma :: t :: ts) (i :: is)

/-- A statement, with the nesting of its expression. -/
inductive DerivesStatement : Nat → List Token → Statement → Prop where
  | assignment {target sign : Token} {n : Nat} {ts : List Token} {e : Expression}
      (ht : target.kind = .identifier) (hs : sign.kind = .assign)
      (he : Derives .expression n ts e) :
      DerivesStatement n (target :: sign :: ts) (.assignment target e)
  | print {keyword l t r : Token} {ts : List Token} {i : PrintItem} {is : List PrintItem}
      (hk : keyword.kind = .printKw) (hl : l.kind = .lparen) (ht : DerivesItem t i)
      (hs : DerivesItems ts is) (hr : r.kind = .rparen) :
      DerivesStatement 0 (keyword :: l :: t :: (ts ++ [r])) (.print keyword (i :: is))
  | read {keyword l target r : Token} (hk : keyword.kind = .readKw) (hl : l.kind = .lparen)
      (ht : target.kind = .identifier) (hr : r.kind = .rparen) :
      DerivesStatement 0 [keyword, l, target, r] (.read keyword target)

/-- The inside of a block: statements with semicolons between them. What follows a semicolon may
be empty, so that one may also stand behind the last statement. -/
inductive DerivesBody : Nat → List Token → List Statement → Prop where
  | nil : DerivesBody 0 [] []
  | last {n : Nat} {ts : List Token} {s : Statement} (hs : DerivesStatement n ts s) :
      DerivesBody n ts [s]
  | cons {semicolon : Token} {m n : Nat} {ts us : List Token} {s : Statement}
      {rest : List Statement} (hs : DerivesStatement m ts s) (hc : semicolon.kind = .semicolon)
      (hr : DerivesBody n us rest) :
      DerivesBody (max m n) (ts ++ semicolon :: us) (s :: rest)

/-- A whole program, the end token included. -/
inductive DerivesProgram : Nat → List Token → Program → Prop where
  | mk {keyword name semicolon l r dot ending : Token} {n : Nat} {ts : List Token}
      {statements : List Statement} (hk : keyword.kind = .programKw)
      (hn : name.kind = .identifier) (hc : semicolon.kind = .semicolon) (hl : l.kind = .lbrace)
      (hs : DerivesBody n ts statements) (hr : r.kind = .rbrace) (hd : dot.kind = .dot)
      (he : ending.kind = .eof) :
      DerivesProgram n (keyword :: name :: semicolon :: l :: (ts ++ [r, dot, ending]))
        { position := keyword.position, name := name.lexeme, bodyPosition := l.position,
          statements }

/-- The expressions that stand in a statement. -/
def Statement.expressions : Statement → List Expression
  | .assignment _ e => [e]
  | .print _ _ => []
  | .read _ _ => []

/-- The expressions that stand in a program, in their order. -/
def Program.expressions (p : Program) : List Expression :=
  p.statements.flatMap Statement.expressions

/-! ### First tokens -/

/-- The kinds of tokens that a factor starts with. -/
def TokenKind.factorStart : List TokenKind :=
  TokenKind.literal ++ [.identifier, .not, .lparen]

/-- The kinds of tokens that join two expressions. -/
def TokenKind.joining : List TokenKind :=
  TokenKind.multiplicative ++ TokenKind.additive ++ TokenKind.relational

lemma TokenKind.notMem_factorStart_of_additive :
    ∀ k ∈ TokenKind.additive, k ∉ TokenKind.factorStart := by
  decide

lemma TokenKind.notMem_multiplicative_of_additive :
    ∀ k ∈ TokenKind.additive, k ∉ TokenKind.multiplicative := by
  decide

lemma TokenKind.notMem_multiplicative_of_relational :
    ∀ k ∈ TokenKind.relational, k ∉ TokenKind.multiplicative := by
  decide

lemma TokenKind.notMem_additive_of_relational :
    ∀ k ∈ TokenKind.relational, k ∉ TokenKind.additive := by
  decide

/-- An expression has a first token, and without a sign it is that of a factor. -/
lemma Derives.exists_eq_cons {l : Level} {n : Nat} {ts : List Token} {e : Expression}
    (h : Derives l n ts e) : ∃ t us, ts = t :: us ∧
      (l = .factor ∨ l = .term → t.kind ∈ TokenKind.factorStart) := by
  induction h with
  | literal ht => exact ⟨_, [], rfl, fun _ => List.mem_append_left _ ht⟩
  | access ht => exact ⟨_, [], rfl, fun _ => by rw [ht]; decide⟩
  | not hop _ _ => exact ⟨_, _, rfl, fun _ => by rw [hop]; decide⟩
  | parens hl _ _ _ => exact ⟨_, _, rfl, fun _ => by rw [hl]; decide⟩
  | ofFactor _ ih =>
    obtain ⟨t, us, rfl, ht⟩ := ih
    exact ⟨t, us, rfl, fun _ => ht (Or.inl rfl)⟩
  | multiply _ _ _ iha _ =>
    obtain ⟨t, us, rfl, ht⟩ := iha
    exact ⟨t, _, rfl, ht⟩
  | ofTerm _ ih =>
    obtain ⟨t, us, rfl, _⟩ := ih
    exact ⟨t, us, rfl, by simp⟩
  | sign _ _ _ => exact ⟨_, _, rfl, by simp⟩
  | add _ _ _ iha _ =>
    obtain ⟨t, us, rfl, _⟩ := iha
    exact ⟨t, _, rfl, by simp⟩
  | ofSimple _ ih =>
    obtain ⟨t, us, rfl, _⟩ := ih
    exact ⟨t, us, rfl, by simp⟩
  | relate _ _ _ iha _ =>
    obtain ⟨t, us, rfl, _⟩ := iha
    exact ⟨t, _, rfl, by simp⟩

/-! ### Kinds of tokens -/

lemma TokenKind.mem_joining_of_multiplicative :
    ∀ k ∈ TokenKind.multiplicative, k ∈ TokenKind.joining := by
  decide

lemma TokenKind.mem_joining_of_additive : ∀ k ∈ TokenKind.additive, k ∈ TokenKind.joining := by
  decide

lemma TokenKind.mem_joining_of_relational :
    ∀ k ∈ TokenKind.relational, k ∈ TokenKind.joining := by
  decide

/-- The kinds of tokens that stand in the body of a program. -/
def TokenKind.inBody : List TokenKind :=
  TokenKind.factorStart ++ TokenKind.joining ++
    [.rparen, .printKw, .readKw, .assign, .comma, .semicolon]

lemma TokenKind.mem_inBody_of_joining : ∀ k ∈ TokenKind.joining, k ∈ TokenKind.inBody := by
  decide

lemma Derives.kind_mem_binary {op : Token} {ts us : List Token}
    (ha : ∀ t ∈ ts, t.kind ∈ TokenKind.inBody) (hop : op.kind ∈ TokenKind.joining)
    (hb : ∀ t ∈ us, t.kind ∈ TokenKind.inBody) :
    ∀ t ∈ ts ++ op :: us, t.kind ∈ TokenKind.inBody := by
  rw [List.forall_mem_append, List.forall_mem_cons]
  exact ⟨ha, TokenKind.mem_inBody_of_joining _ hop, hb⟩

lemma Derives.kind_mem {l : Level} {n : Nat} {ts : List Token} {e : Expression}
    (h : Derives l n ts e) : ∀ t ∈ ts, t.kind ∈ TokenKind.inBody := by
  induction h with
  | literal ht =>
    rw [List.forall_mem_singleton]
    exact List.mem_append_left _ (List.mem_append_left _ (List.mem_append_left _ ht))
  | access ht =>
    rw [List.forall_mem_singleton, ht]
    decide
  | not hop _ ih =>
    rw [List.forall_mem_cons, hop]
    exact ⟨by decide, ih⟩
  | parens hl _ hr ih =>
    rw [List.forall_mem_cons, List.forall_mem_append, List.forall_mem_singleton, hl, hr]
    exact ⟨by decide, ih, by decide⟩
  | ofFactor _ ih => exact ih
  | multiply _ hop _ iha ihb =>
    exact kind_mem_binary iha (TokenKind.mem_joining_of_multiplicative _ hop) ihb
  | ofTerm _ ih => exact ih
  | sign hop _ ih =>
    rw [List.forall_mem_cons]
    exact ⟨TokenKind.mem_inBody_of_joining _ (TokenKind.mem_joining_of_additive _ hop), ih⟩
  | add _ hop _ iha ihb =>
    exact kind_mem_binary iha (TokenKind.mem_joining_of_additive _ hop) ihb
  | ofSimple _ ih => exact ih
  | relate _ hop _ iha ihb =>
    exact kind_mem_binary iha (TokenKind.mem_joining_of_relational _ hop) ihb

lemma DerivesItem.kind_mem {t : Token} {i : PrintItem} (h : DerivesItem t i) :
    t.kind ∈ TokenKind.inBody := by
  have htable : ∀ k ∈ [TokenKind.stringLiteral, .charLiteral], k ∈ TokenKind.inBody := by decide
  cases h with
  | literal ht => exact htable _ ht
  | access ht => rw [ht]; decide

lemma DerivesItems.kind_mem {ts : List Token} {is : List PrintItem} (h : DerivesItems ts is) :
    ∀ t ∈ ts, t.kind ∈ TokenKind.inBody := by
  induction h with
  | nil => simp
  | cons hc ht _ ih =>
    rw [List.forall_mem_cons, List.forall_mem_cons, hc]
    exact ⟨by decide, ht.kind_mem, ih⟩

lemma DerivesStatement.kind_mem {n : Nat} {ts : List Token} {s : Statement}
    (h : DerivesStatement n ts s) : ∀ t ∈ ts, t.kind ∈ TokenKind.inBody := by
  cases h with
  | assignment ht hs he =>
    rw [List.forall_mem_cons, List.forall_mem_cons, ht, hs]
    exact ⟨by decide, by decide, he.kind_mem⟩
  | print hk hl ht hs hr =>
    simp only [List.forall_mem_cons, List.forall_mem_append, hk, hl, hr]
    exact ⟨by decide, by decide, ht.kind_mem, hs.kind_mem, by decide⟩
  | read hk hl ht hr =>
    simp only [List.forall_mem_cons, hk, hl, ht, hr]
    decide

/-- In the body of a program there is neither a brace nor an end. -/
lemma DerivesBody.kind_mem {n : Nat} {ts : List Token} {statements : List Statement}
    (h : DerivesBody n ts statements) : ∀ t ∈ ts, t.kind ∈ TokenKind.inBody := by
  induction h with
  | nil => simp
  | last hs => exact hs.kind_mem
  | cons hs hc _ ih =>
    rw [List.forall_mem_append, List.forall_mem_cons, hc]
    exact ⟨hs.kind_mem, by decide, ih⟩

lemma DerivesBody.kind_ne_eof {n : Nat} {ts : List Token} {statements : List Statement}
    (h : DerivesBody n ts statements) : ∀ t ∈ ts, t.kind ≠ .eof :=
  fun t ht => ne_of_mem_of_not_mem (h.kind_mem t ht) (by decide)

lemma DerivesProgram.endsOnce {n : Nat} {ts : List Token} {p : Program}
    (h : DerivesProgram n ts p) : EndsOnce ts := by
  obtain @⟨keyword, name, semicolon, l, r, dot, ending, _, us, _, hk, hn, hc, hl, hs, hr, hd, he⟩ := h
  refine ⟨keyword :: name :: semicolon :: l :: (us ++ [r, dot]), ending, by simp, he, ?_⟩
  simpa [hk, hn, hc, hl, hr, hd, or_imp, forall_and] using hs.kind_ne_eof

end Barnamaj
