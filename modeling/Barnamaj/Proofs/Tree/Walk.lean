import Barnamaj.Proofs.Parser.Readings
import Barnamaj.Proofs.Symbol.Uses

/-!
# Walking a tree

The tokens that stand in the tree of a program are those of its text. A walk from left to right
(`Node.walk`) meets the tokens between the braces in their order, each once, except for the
punctuation, which has no node. Every node carries the place of the token that introduces it, and
the name or the kind and value of this token (`Node.Introduced`).
-/

namespace Barnamaj

/-! ### Walks -/

namespace Node

mutual

/-- The tokens of a tree from left to right: an operator stands between two operands, or in front of
one. -/
def walk : Node → List Token
  | .program _ _ body => body.walk
  | .block _ statements => walkAll statements
  | .assignment _ target e => target.walk ++ e.walk
  | .print _ items token => token.toList ++ walkAll items
  | .read _ target token => token.toList ++ target.walk
  | .binary _ operator left right => left.walk ++ operator :: right.walk
  | .unary _ operator operand => operator :: operand.walk
  | .access _ _ token => token.toList
  | .literal _ _ _ token => token.toList
  | .bare _ _ => []

/-- The tokens of several trees, one after the other. -/
def walkAll : List Node → List Token
  | [] => []
  | n :: ns => n.walk ++ walkAll ns

end

mutual

/-- Every node of the tree carries the data of the token that introduces it. That of an assignment
is the one of its target. -/
def Introduced : Node → Prop
  | .program _ _ body => body.Introduced
  | .block _ statements => AllIntroduced statements
  | .assignment p target e => p = target.position ∧ target.Introduced ∧ e.Introduced
  | .print p items token => token.map Token.position = some p ∧ AllIntroduced items
  | .read p target token => token.map Token.position = some p ∧ target.Introduced
  | .binary p operator left right =>
    p = operator.position ∧ left.Introduced ∧ right.Introduced
  | .unary p operator operand => p = operator.position ∧ operand.Introduced
  | .access p name token => ∃ t, token = some t ∧ p = t.position ∧ name = t.lexeme
  | .literal p kind value token =>
    ∃ t, token = some t ∧ p = t.position ∧ kind = t.kind ∧ value = t.value
  | .bare _ _ => False

/-- Several trees whose nodes are introduced by their tokens. -/
def AllIntroduced : List Node → Prop
  | [] => True
  | n :: ns => n.Introduced ∧ AllIntroduced ns

end

lemma allIntroduced_map {α : Type} {toNode : α → Node} (h : ∀ a, (toNode a).Introduced)
    (as : List α) : AllIntroduced (as.map toNode) := by
  induction as with
  | nil => exact trivial
  | cons a as ih => exact ⟨h a, ih⟩

end Node

/-! ### Introducing tokens -/

lemma Token.introduced_literalNode (t : Token) : t.literalNode.Introduced :=
  ⟨t, rfl, rfl, rfl, rfl⟩

lemma Token.introduced_accessNode (t : Token) : t.accessNode.Introduced :=
  ⟨t, rfl, rfl, rfl⟩

lemma Expression.introduced_toNode (e : Expression) : e.toNode.Introduced := by
  induction e with
  | literal t => exact t.introduced_literalNode
  | access t => exact t.introduced_accessNode
  | unary op operand ih => exact ⟨rfl, ih⟩
  | binary op left right ihl ihr => exact ⟨rfl, ihl, ihr⟩

lemma PrintItem.introduced_toNode (i : PrintItem) : i.toNode.Introduced := by
  cases i with
  | literal t => exact t.introduced_literalNode
  | access t => exact t.introduced_accessNode

lemma Statement.introduced_toNode (s : Statement) : s.toNode.Introduced := by
  cases s with
  | assignment target e => exact ⟨rfl, target.introduced_accessNode, e.introduced_toNode⟩
  | print keyword items => exact ⟨rfl, Node.allIntroduced_map PrintItem.introduced_toNode items⟩
  | read keyword target => exact ⟨rfl, target.introduced_accessNode⟩

/-- Every node in the tree of a program is introduced by its token. -/
lemma Program.introduced_toNode (p : Program) : p.toNode.Introduced :=
  Node.allIntroduced_map Statement.introduced_toNode p.statements

/-! ### Tokens with a node -/

/-- The kinds of tokens in a body that have no node. -/
def TokenKind.punctuation : List TokenKind :=
  [.lparen, .rparen, .comma, .semicolon, .assign]

/-- Whether a token stands in the tree. -/
def Token.isContent (t : Token) : Bool := t.kind ∉ TokenKind.punctuation

lemma Token.isContent_of_mem {t : Token} {kinds : List TokenKind} (h : t.kind ∈ kinds)
    (hk : ∀ k ∈ kinds, k ∉ TokenKind.punctuation) : t.isContent = true := by
  simpa [Token.isContent] using hk _ h

lemma Token.isContent_of_eq {t : Token} {k : TokenKind} (h : t.kind = k)
    (hk : k ∉ TokenKind.punctuation) : t.isContent = true := by
  simpa [Token.isContent, h] using hk

lemma Token.not_isContent {t : Token} {k : TokenKind} (h : t.kind = k)
    (hk : k ∈ TokenKind.punctuation) : ¬ t.isContent = true := by
  simpa [Token.isContent, h] using hk

variable {n : Nat} {ts us : List Token}

lemma Derives.filter_isContent_binary {op : Token} {kinds : List TokenKind} {a b : Expression}
    (ha : ts.filter Token.isContent = a.toNode.walk) (hop : op.kind ∈ kinds)
    (hk : ∀ k ∈ kinds, k ∉ TokenKind.punctuation)
    (hb : us.filter Token.isContent = b.toNode.walk) :
    (ts ++ op :: us).filter Token.isContent = (Expression.binary op a b).toNode.walk := by
  rw [List.filter_append, List.filter_cons_of_pos (Token.isContent_of_mem hop hk), ha, hb]
  rfl

/-- Walking an expression meets its tokens, except for the parentheses. -/
lemma Derives.filter_isContent {l : Level} {e : Expression} (h : Derives l n ts e) :
    ts.filter Token.isContent = e.toNode.walk := by
  induction h with
  | literal ht =>
    rw [List.filter_cons_of_pos (Token.isContent_of_mem ht (by decide))]
    rfl
  | access ht =>
    rw [List.filter_cons_of_pos (Token.isContent_of_eq ht (by decide))]
    rfl
  | not hop _ ih =>
    rw [List.filter_cons_of_pos (Token.isContent_of_eq hop (by decide)), ih]
    rfl
  | parens hl _ hr ih =>
    rw [List.filter_cons_of_neg (Token.not_isContent hl (by decide)), List.filter_append, ih,
      List.filter_cons_of_neg (Token.not_isContent hr (by decide)), List.filter_nil,
      List.append_nil]
  | ofFactor _ ih => exact ih
  | multiply _ hop _ iha ihb => exact filter_isContent_binary iha hop (by decide) ihb
  | ofTerm _ ih => exact ih
  | sign hop _ ih =>
    rw [List.filter_cons_of_pos (Token.isContent_of_mem hop (by decide)), ih]
    rfl
  | add _ hop _ iha ihb => exact filter_isContent_binary iha hop (by decide) ihb
  | ofSimple _ ih => exact ih
  | relate _ hop _ iha ihb => exact filter_isContent_binary iha hop (by decide) ihb

lemma DerivesItem.filter_isContent {t : Token} {i : PrintItem} (h : DerivesItem t i) :
    [t].filter Token.isContent = i.toNode.walk := by
  cases h with
  | literal ht =>
    rw [List.filter_cons_of_pos (Token.isContent_of_mem ht (by decide))]
    rfl
  | access ht =>
    rw [List.filter_cons_of_pos (Token.isContent_of_eq ht (by decide))]
    rfl

lemma DerivesItems.filter_isContent {is : List PrintItem} (h : DerivesItems ts is) :
    ts.filter Token.isContent = Node.walkAll (is.map PrintItem.toNode) := by
  induction h with
  | nil => rfl
  | @cons comma t ts i is hc ht _ ih =>
    rw [List.filter_cons_of_neg (Token.not_isContent hc (by decide)), ← List.singleton_append,
      List.filter_append, ht.filter_isContent, ih]
    rfl

lemma DerivesStatement.filter_isContent {s : Statement} (h : DerivesStatement n ts s) :
    ts.filter Token.isContent = s.toNode.walk := by
  cases h with
  | @assignment target sign _ ts e ht hs he =>
    rw [List.filter_cons_of_pos (Token.isContent_of_eq ht (by decide)),
      List.filter_cons_of_neg (Token.not_isContent hs (by decide)), he.filter_isContent]
    rfl
  | @print keyword l t r ts i is hk hl ht hs hr =>
    have hitems : (t :: (ts ++ [r])).filter Token.isContent =
        Node.walkAll ((i :: is).map PrintItem.toNode) := by
      rw [← List.singleton_append, List.filter_append, List.filter_append, ht.filter_isContent,
        hs.filter_isContent, List.filter_cons_of_neg (Token.not_isContent hr (by decide)),
        List.filter_nil, List.append_nil]
      rfl
    rw [List.filter_cons_of_pos (Token.isContent_of_eq hk (by decide)),
      List.filter_cons_of_neg (Token.not_isContent hl (by decide)), hitems]
    rfl
  | read hk hl ht hr =>
    rw [List.filter_cons_of_pos (Token.isContent_of_eq hk (by decide)),
      List.filter_cons_of_neg (Token.not_isContent hl (by decide)),
      List.filter_cons_of_pos (Token.isContent_of_eq ht (by decide)),
      List.filter_cons_of_neg (Token.not_isContent hr (by decide)), List.filter_nil]
    rfl

/-- Walking the statements of a body meets its tokens, except for the punctuation. -/
lemma DerivesBody.filter_isContent {statements : List Statement}
    (h : DerivesBody n ts statements) :
    ts.filter Token.isContent = Node.walkAll (statements.map Statement.toNode) := by
  induction h with
  | nil => rfl
  | last hs =>
    rw [hs.filter_isContent, List.map_singleton, Node.walkAll, Node.walkAll, List.append_nil]
  | cons hs hc _ ih =>
    rw [List.filter_append, List.filter_cons_of_neg (Token.not_isContent hc (by decide)),
      hs.filter_isContent, ih]
    rfl

/-- Nothing is lost, doubled or moved by parsing. A program is named by the second token of its text
and starts at the first, and its body starts at the opening brace. Walking the body meets the tokens
between the braces one after the other, except for the punctuation. Every node in it has the place,
and the name or the kind and value, of the token that introduces it. -/
theorem parse_keeps_tokens {source : String} {p : Program} (h : parse source = .ok p) :
    ∃ keyword name semicolon brace ts,
      tokenize source = .ok (keyword :: name :: semicolon :: brace :: ts) ∧
      brace.kind = .lbrace ∧ p.toNode.position = keyword.position ∧ p.name = name.lexeme ∧
      p.toNode.body.position = brace.position ∧
      p.toNode.body.walk =
        (enclosed (keyword :: name :: semicolon :: brace :: ts)).filter Token.isContent ∧
      p.toNode.body.Introduced := by
  obtain ⟨n, ts, hts, hd⟩ := exists_tokenize_of_parse h
  obtain ⟨hk, hn, hc, hl, hs, hr, -, -⟩ := hd
  refine ⟨_, _, _, _, _, hts, hl, rfl, rfl, rfl, ?_, Program.introduced_toNode _⟩
  rw [enclosed_of_body hk hn hc hl hs hr, hs.filter_isContent]
  rfl

theorem signed_sum_keeps_tokens :
    ∃ p, parse "برنامج س;\x7bع=-(!1+2);اطبع(ع)\x7d." = .ok p ∧
      p.toNode.body.walk.map Token.lexeme = ["ع", "-", "!", "1", "+", "2", "اطبع", "ع"] ∧
      p.toNode.body.Introduced := by
  have hok : (parse "برنامج س;\x7bع=-(!1+2);اطبع(ع)\x7d.").isOk = true := by decide +kernel
  have hlexemes : (tokenize "برنامج س;\x7bع=-(!1+2);اطبع(ع)\x7d.").map
      (fun ts => ((enclosed ts).filter Token.isContent).map Token.lexeme) =
        .ok ["ع", "-", "!", "1", "+", "2", "اطبع", "ع"] := by decide +kernel
  cases h : parse "برنامج س;\x7bع=-(!1+2);اطبع(ع)\x7d." with
  | error e => simp [h, Except.isOk, Except.toBool] at hok
  | ok p =>
    obtain ⟨keyword, name, semicolon, brace, ts, hts, -, -, -, -, hwalk, hintroduced⟩ :=
      parse_keeps_tokens h
    rw [hts] at hlexemes
    refine ⟨p, rfl, ?_, hintroduced⟩
    rw [hwalk]
    exact Except.ok.inj hlexemes

end Barnamaj
