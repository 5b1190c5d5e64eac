import Barnamaj.Proofs.Parser.Acceptance
import Barnamaj.Proofs.Tree.Unplaced

/-!
# Writing a tree as a text

A tree is written as the texts of its tokens with single spaces between them. Parentheses stand
only where the levels require them. An expression has a level of its own, that of its outermost
operator, and is enclosed where an operand of a tighter level is needed. Operators associate to the
left, so that of two operands the left one may be of the operator's own level.
-/

namespace Barnamaj

/-! ### Levels -/

/-- The levels in their order. -/
def Level.rank : Level → Nat
  | .factor => 0
  | .term => 1
  | .simple => 2
  | .expression => 3

/-- The level of what an operator in front of its operand makes. -/
def Level.ofUnary (k : TokenKind) : Level :=
  if k = .not then .factor else .simple

/-- The level of what an operator between its operands makes. -/
def Level.ofBinary (k : TokenKind) : Level :=
  if k ∈ TokenKind.multiplicative then .term
  else if k ∈ TokenKind.additive then .simple
  else .expression

/-- The level of the left operand of an operator of a level. -/
def Level.left : Level → Level
  | .factor => .factor
  | .term => .term
  | .simple => .simple
  | .expression => .simple

/-- The level of the right operand, or of the only one, of an operator of a level. -/
def Level.right : Level → Level
  | .factor => .factor
  | .term => .factor
  | .simple => .term
  | .expression => .simple

/-- The level of an expression. -/
def Expression.level : Expression → Level
  | .literal _ => .factor
  | .access _ => .factor
  | .unary op _ => .ofUnary op.kind
  | .binary op _ _ => .ofBinary op.kind

/-! ### Tokens of a tree -/

/-- A token that has no value. -/
def mark (kind : TokenKind) (text : String) : Token :=
  ⟨kind, text, .absent, .origin⟩

/-- Tokens of one level where a level is needed. -/
def enclose (needed level : Level) (ts : List Token) : List Token :=
  if level.rank ≤ needed.rank then ts
  else mark .lparen "(" :: (ts ++ [mark .rparen ")"])

/-- The nesting of tokens of one level where a level is needed. -/
def nestingIn (needed level : Level) (n : Nat) : Nat :=
  if level.rank ≤ needed.rank then n else n + 1

/-- The tokens of an expression. -/
def Expression.tokens : Expression → List Token
  | .literal t => [t]
  | .access t => [t]
  | .unary op operand =>
    op :: enclose (Level.ofUnary op.kind).right operand.level operand.tokens
  | .binary op left right =>
    enclose (Level.ofBinary op.kind).left left.level left.tokens ++
      op :: enclose (Level.ofBinary op.kind).right right.level right.tokens

/-- The token of a printed item. -/
def PrintItem.token : PrintItem → Token
  | .literal t => t
  | .access t => t

/-- The tokens of a statement. -/
def Statement.tokens : Statement → List Token
  | .assignment target e => target :: mark .assign "=" :: e.tokens
  | .print keyword items =>
    keyword :: mark .lparen "(" ::
      ((items.map PrintItem.token).intersperse (mark .comma ",") ++ [mark .rparen ")"])
  | .read keyword target => [keyword, mark .lparen "(", target, mark .rparen ")"]

/-- The tokens of a program, without the end token. -/
def Program.tokens (p : Program) : List Token :=
  mark .programKw "برنامج" :: ⟨.identifier, p.name, .text p.name, .origin⟩ ::
    mark .semicolon ";" :: mark .lbrace "\x7b" ::
      ([mark .semicolon ";"].intercalate (p.statements.map Statement.tokens) ++
        [mark .rbrace "\x7d", mark .dot "."])

/-- The text of a program. -/
def unparse (p : Program) : String :=
  " ".intercalate (p.tokens.map Token.lexeme)

/-! ### The tokens of a tree derive it -/

variable {l l' : Level} {n : Nat} {ts : List Token} {e : Expression}

/-- What is derived at a level is derived at every looser one. -/
lemma Derives.of_rank_le (h : Derives l n ts e) (hl : l.rank ≤ l'.rank) : Derives l' n ts e := by
  cases l with
  | factor =>
    cases l' with
    | factor => exact h
    | term => exact h.ofFactor
    | simple => exact h.ofFactor.ofTerm
    | expression => exact h.ofFactor.ofTerm.ofSimple
  | term =>
    cases l' with
    | factor => cases hl
    | term => exact h
    | simple => exact h.ofTerm
    | expression => exact h.ofTerm.ofSimple
  | simple =>
    cases l' with
    | factor => cases hl
    | term => exact absurd hl (by decide)
    | simple => exact h
    | expression => exact h.ofSimple
  | expression =>
    cases l' with
    | factor => cases hl
    | term => exact absurd hl (by decide)
    | simple => exact absurd hl (by decide)
    | expression => exact h

lemma Derives.enclose (h : Derives l n ts e) (needed : Level) :
    Derives needed (nestingIn needed l n) (enclose needed l ts) e := by
  rw [nestingIn, Barnamaj.enclose]
  split
  · next hl => exact h.of_rank_le hl
  · have hexpr : Derives .expression n ts e := h.of_rank_le (by cases l <;> decide)
    exact (Derives.parens rfl hexpr rfl).of_rank_le (Nat.zero_le _)

lemma nestingIn_le_of_rank_le (hl : l.rank ≤ l'.rank) (level : Level) (n : Nat) :
    nestingIn l' level n ≤ nestingIn l level n := by
  rw [nestingIn, nestingIn]
  split_ifs <;> omega

lemma nestingIn_le_succ (needed level : Level) (n : Nat) : nestingIn needed level n ≤ n + 1 := by
  rw [nestingIn]
  split_ifs <;> omega

lemma nestingIn_expression (level : Level) (n : Nat) : nestingIn .expression level n = n := by
  rw [nestingIn, if_pos (by cases level <;> decide)]

lemma Level.ofBinary_of_multiplicative {k : TokenKind} (h : k ∈ TokenKind.multiplicative) :
    Level.ofBinary k = .term := by
  rw [ofBinary, if_pos h]

lemma Level.ofBinary_of_additive {k : TokenKind} (h : k ∈ TokenKind.additive) :
    Level.ofBinary k = .simple := by
  rw [ofBinary, if_neg (TokenKind.notMem_multiplicative_of_additive k h), if_pos h]

lemma Level.ofBinary_of_relational {k : TokenKind} (h : k ∈ TokenKind.relational) :
    Level.ofBinary k = .expression := by
  rw [ofBinary, if_neg (TokenKind.notMem_multiplicative_of_relational k h),
    if_neg (TokenKind.notMem_additive_of_relational k h)]

lemma Level.ofUnary_of_additive {k : TokenKind} (h : k ∈ TokenKind.additive) :
    Level.ofUnary k = .simple := by
  rw [ofUnary, if_neg (ne_of_mem_of_not_mem h (by decide))]

/-- The tokens of two operands, enclosed where that is needed, and their operator. -/
lemma Derives.exists_derives_tokens_binary {op : Token} {m : Nat} {a b : Expression}
    (hl : Level.ofBinary op.kind = l)
    (rule : ∀ {m n : Nat} {ts us : List Token}, Derives l.left m ts a → Derives l.right n us b →
      Derives l (max m n) (ts ++ op :: us) (.binary op a b))
    (iha : ∃ k, Derives a.level k a.tokens a ∧ nestingIn l.left a.level k ≤ m)
    (ihb : ∃ k, Derives b.level k b.tokens b ∧ nestingIn l.right b.level k ≤ n) :
    ∃ k, Derives (Expression.binary op a b).level k (Expression.binary op a b).tokens
        (.binary op a b) ∧
      nestingIn l (Expression.binary op a b).level k ≤ max m n := by
  obtain ⟨j, hj, hja⟩ := iha
  obtain ⟨k, hk, hkb⟩ := ihb
  refine ⟨max (nestingIn l.left a.level j) (nestingIn l.right b.level k), ?_, ?_⟩
  · simp only [Expression.level, Expression.tokens, hl]
    exact rule (hj.enclose l.left) (hk.enclose l.right)
  · simp only [Expression.level, hl, nestingIn, if_pos le_rfl]
    exact sup_le_sup hja hkb

/-- The tokens of an expression derive it at its own level. Whatever other tokens derive it at a
level, the tokens of the expression are not nested deeper there, parentheses included. -/
lemma Derives.exists_derives_tokens (h : Derives l n ts e) :
    ∃ k, Derives e.level k e.tokens e ∧ nestingIn l e.level k ≤ n := by
  induction h with
  | literal ht => exact ⟨0, .literal ht, le_rfl⟩
  | access ht => exact ⟨0, .access ht, le_rfl⟩
  | @not op n ts e hop _ ih =>
    obtain ⟨k, hk, hle⟩ := ih
    refine ⟨nestingIn .factor e.level k + 1, ?_, ?_⟩
    · simp only [Expression.level, Expression.tokens, Level.ofUnary, if_pos hop]
      exact .not hop (hk.enclose .factor)
    · simpa [Expression.level, Level.ofUnary, hop, nestingIn] using hle
  | parens _ _ _ ih =>
    obtain ⟨k, hk, hle⟩ := ih
    rw [nestingIn_expression] at hle
    exact ⟨k, hk, (nestingIn_le_succ _ _ k).trans (Nat.succ_le_succ hle)⟩
  | ofFactor _ ih =>
    obtain ⟨k, hk, hle⟩ := ih
    exact ⟨k, hk, (nestingIn_le_of_rank_le (by decide) _ k).trans hle⟩
  | multiply _ hop _ iha ihb =>
    exact exists_derives_tokens_binary (Level.ofBinary_of_multiplicative hop)
      (fun ha hb => ha.multiply hop hb) iha ihb
  | ofTerm _ ih =>
    obtain ⟨k, hk, hle⟩ := ih
    exact ⟨k, hk, (nestingIn_le_of_rank_le (by decide) _ k).trans hle⟩
  | @sign op n ts e hop _ ih =>
    obtain ⟨k, hk, hle⟩ := ih
    have hl := Level.ofUnary_of_additive hop
    refine ⟨nestingIn .term e.level k, ?_, ?_⟩
    · simp only [Expression.level, Expression.tokens, hl]
      exact .sign hop (hk.enclose .term)
    · simp only [Expression.level, hl, nestingIn, if_pos le_rfl]
      exact hle
  | add _ hop _ iha ihb =>
    exact exists_derives_tokens_binary (Level.ofBinary_of_additive hop)
      (fun ha hb => ha.add hop hb) iha ihb
  | ofSimple _ ih =>
    obtain ⟨k, hk, hle⟩ := ih
    exact ⟨k, hk, (nestingIn_le_of_rank_le (by decide) _ k).trans hle⟩
  | relate _ hop _ iha ihb =>
    exact exists_derives_tokens_binary (Level.ofBinary_of_relational hop)
      (fun ha hb => ha.relate hop hb) iha ihb

lemma DerivesItem.token_eq {t : Token} {i : PrintItem} (h : DerivesItem t i) : i.token = t := by
  cases h <;> rfl

lemma DerivesItem.derives_token {t : Token} {i : PrintItem} (h : DerivesItem t i) :
    DerivesItem i.token i := by
  rwa [h.token_eq]

/-- The tokens of items are that of the first one and those of the others behind commas. -/
lemma DerivesItems.exists_derives_tokens {is : List PrintItem} (h : DerivesItems ts is)
    (i : PrintItem) : ∃ us, DerivesItems us is ∧
      ((i :: is).map PrintItem.token).intersperse (mark .comma ",") = i.token :: us := by
  induction h generalizing i with
  | nil => exact ⟨[], .nil, rfl⟩
  | @cons comma t ts j is _ ht _ ih =>
    obtain ⟨us, hus, heq⟩ := ih j
    refine ⟨mark .comma "," :: j.token :: us, .cons rfl ht.derives_token hus, ?_⟩
    rw [← heq]
    rfl

lemma DerivesStatement.exists_derives_tokens {s : Statement} (h : DerivesStatement n ts s) :
    ∃ k ≤ n, DerivesStatement k s.tokens s := by
  cases h with
  | @assignment target sign n ts e ht _ he =>
    obtain ⟨k, hk, hle⟩ := he.exists_derives_tokens
    rw [nestingIn_expression] at hle
    exact ⟨k, hle, .assignment ht rfl (hk.of_rank_le (by cases e.level <;> decide))⟩
  | @print keyword l t r ts i is hk _ ht hs _ =>
    obtain ⟨us, hus, heq⟩ := hs.exists_derives_tokens i
    refine ⟨0, le_rfl, ?_⟩
    rw [Statement.tokens, heq]
    exact .print hk rfl ht.derives_token hus rfl
  | read hk _ ht _ => exact ⟨0, le_rfl, .read hk rfl ht rfl⟩

lemma DerivesBody.exists_derives_tokens {statements : List Statement}
    (h : DerivesBody n ts statements) :
    ∃ k ≤ n, DerivesBody k
      ([mark .semicolon ";"].intercalate (statements.map Statement.tokens)) statements := by
  induction h with
  | nil => exact ⟨0, le_rfl, .nil⟩
  | last hs =>
    obtain ⟨k, hk, hd⟩ := hs.exists_derives_tokens
    refine ⟨k, hk, ?_⟩
    rw [List.map_singleton, List.intercalate_singleton]
    exact .last hd
  | @cons semicolon m n ts us s rest hs _ _ ih =>
    obtain ⟨j, hj, hd⟩ := hs.exists_derives_tokens
    obtain ⟨k, hk, hr⟩ := ih
    cases rest with
    | nil =>
      refine ⟨j, le_sup_of_le_left hj, ?_⟩
      rw [List.map_singleton, List.intercalate_singleton]
      exact .last hd
    | cons s' rest =>
      refine ⟨max j k, sup_le_sup hj hk, ?_⟩
      rw [List.map_cons, List.map_cons, List.intercalate_cons_cons, List.append_assoc]
      exact .cons hd rfl hr

/-- The tokens of a program derive it, no deeper nested than any others that do. -/
lemma DerivesProgram.exists_derives_tokens {p : Program} (h : DerivesProgram n ts p) :
    ∃ k ≤ n, DerivesProgram k (p.tokens ++ [mark .eof "EOF"])
      { p with position := .origin, bodyPosition := .origin } := by
  obtain ⟨-, -, -, -, hs, -, -, -⟩ := h
  obtain ⟨k, hk, hd⟩ := hs.exists_derives_tokens
  refine ⟨k, hk, ?_⟩
  simp only [Program.tokens, List.cons_append, List.append_assoc, List.nil_append]
  exact .mk rfl rfl rfl rfl hd rfl rfl rfl

/-! ### The text of a tree is read as its tokens -/

/-- A token that a text can hold. -/
def Token.Formed (t : Token) : Prop := t.toLexeme.Formed

lemma formed_mark {c : Char} {k : TokenKind} (h : TokenKind.symbols.lookup c = some k) :
    (mark k (String.ofList [c])).Formed :=
  .symbol h

lemma formed_enclose {needed level : Level} (h : ∀ t ∈ ts, t.Formed) :
    ∀ t ∈ enclose needed level ts, t.Formed := by
  rw [enclose]
  split
  · exact h
  · rw [List.forall_mem_cons, List.forall_mem_append, List.forall_mem_singleton]
    exact ⟨formed_mark (by decide), h, formed_mark (by decide)⟩

lemma formed_tokens_binary {op : Token} {us : List Token} {a b : Expression}
    (iha : (∀ t ∈ ts, t.Formed) → ∀ t ∈ a.tokens, t.Formed)
    (ihb : (∀ t ∈ us, t.Formed) → ∀ t ∈ b.tokens, t.Formed)
    (h : ∀ t ∈ ts ++ op :: us, t.Formed) : ∀ t ∈ (Expression.binary op a b).tokens, t.Formed := by
  rw [List.forall_mem_append, List.forall_mem_cons] at h
  obtain ⟨hts, hop, hus⟩ := h
  rw [Expression.tokens, List.forall_mem_append, List.forall_mem_cons]
  exact ⟨formed_enclose (iha hts), hop, formed_enclose (ihb hus)⟩

/-- An expression has no tokens but those it was derived from, and parentheses. -/
lemma Derives.formed_tokens (h : Derives l n ts e) (ht : ∀ t ∈ ts, t.Formed) :
    ∀ t ∈ e.tokens, t.Formed := by
  induction h with
  | literal _ => exact ht
  | access _ => exact ht
  | not _ _ ih =>
    obtain ⟨hop, hts⟩ := List.forall_mem_cons.mp ht
    exact List.forall_mem_cons.mpr ⟨hop, formed_enclose (ih hts)⟩
  | parens _ _ _ ih =>
    obtain ⟨-, hts⟩ := List.forall_mem_cons.mp ht
    exact ih (List.forall_mem_append.mp hts).1
  | ofFactor _ ih => exact ih ht
  | multiply _ _ _ iha ihb => exact formed_tokens_binary iha ihb ht
  | ofTerm _ ih => exact ih ht
  | sign _ _ ih =>
    obtain ⟨hop, hts⟩ := List.forall_mem_cons.mp ht
    exact List.forall_mem_cons.mpr ⟨hop, formed_enclose (ih hts)⟩
  | add _ _ _ iha ihb => exact formed_tokens_binary iha ihb ht
  | ofSimple _ ih => exact ih ht
  | relate _ _ _ iha ihb => exact formed_tokens_binary iha ihb ht

lemma DerivesItems.formed_tokens {is : List PrintItem} (h : DerivesItems ts is)
    (ht : ∀ t ∈ ts, t.Formed) : ∀ i ∈ is, i.token.Formed := by
  induction h with
  | nil => simp
  | cons _ hi _ ih =>
    simp only [List.forall_mem_cons] at ht ⊢
    rw [hi.token_eq]
    exact ⟨ht.2.1, ih ht.2.2⟩

lemma forall_mem_intersperse {α : Type} {P : α → Prop} {sep : α} {xs : List α} (hs : P sep)
    (h : ∀ x ∈ xs, P x) : ∀ x ∈ xs.intersperse sep, P x := by
  fun_induction xs.intersperse sep with
  | case1 => exact h
  | case2 => exact h
  | case3 x y zs ih =>
    obtain ⟨hx, hyz⟩ := List.forall_mem_cons.mp h
    exact List.forall_mem_cons.mpr ⟨hx, List.forall_mem_cons.mpr ⟨hs, ih hyz⟩⟩

lemma DerivesStatement.formed_tokens {s : Statement} (h : DerivesStatement n ts s)
    (ht : ∀ t ∈ ts, t.Formed) : ∀ t ∈ s.tokens, t.Formed := by
  have hl : (mark .lparen "(").Formed := formed_mark (by decide)
  have hr : (mark .rparen ")").Formed := formed_mark (by decide)
  cases h with
  | assignment _ _ he =>
    obtain ⟨htarget, hrest⟩ := List.forall_mem_cons.mp ht
    rw [Statement.tokens, List.forall_mem_cons, List.forall_mem_cons]
    exact ⟨htarget, .operator (by decide), he.formed_tokens (List.forall_mem_cons.mp hrest).2⟩
  | @print keyword _ t r ts i is _ _ hi hs _ =>
    simp only [List.forall_mem_cons, List.forall_mem_append] at ht
    obtain ⟨hkeyword, -, ht, hts, -⟩ := ht
    have hitems : ∀ x ∈ (i :: is).map PrintItem.token, x.Formed := by
      rw [List.map_cons, List.forall_mem_cons, List.forall_mem_map, hi.token_eq]
      exact ⟨ht, hs.formed_tokens hts⟩
    rw [Statement.tokens, List.forall_mem_cons, List.forall_mem_cons, List.forall_mem_append,
      List.forall_mem_singleton]
    exact ⟨hkeyword, hl, forall_mem_intersperse (formed_mark (by decide)) hitems, hr⟩
  | read _ _ _ _ =>
    simp only [List.forall_mem_cons] at ht
    simp only [Statement.tokens, List.forall_mem_cons]
    exact ⟨ht.1, hl, ht.2.2.1, hr, by simp⟩

lemma DerivesBody.formed_tokens {statements : List Statement} (h : DerivesBody n ts statements)
    (ht : ∀ t ∈ ts, t.Formed) : ∀ s ∈ statements, ∀ t ∈ s.tokens, t.Formed := by
  induction h with
  | nil => simp
  | last hs => simpa using hs.formed_tokens ht
  | cons hs _ _ ih =>
    rw [List.forall_mem_append, List.forall_mem_cons] at ht
    exact List.forall_mem_cons.mpr ⟨hs.formed_tokens ht.1, ih ht.2.2⟩

/-- The tokens of a program can stand in a text if those can that it was derived from. -/
lemma DerivesProgram.formed_tokens {p : Program} (h : DerivesProgram n ts p)
    (ht : ∀ t ∈ ts, t.kind ≠ .eof → t.Formed) : ∀ t ∈ p.tokens, t.Formed := by
  obtain @⟨keyword, name, semicolon, l, r, dot, ending, n, us, statements, -, hn, -, -, hs, -, -, -⟩
    := h
  have hname : name.Formed := ht name (by simp) (by simp [hn])
  have hus : ∀ t ∈ us, t.Formed := fun t hu => ht t (by simp [hu]) (hs.kind_ne_eof t hu)
  have hkeyword : (mark .programKw "برنامج").Formed := by
    have hword : (mark .programKw "برنامج").toLexeme =
        .ofWord (String.ofList ['ب', 'ر', 'ن', 'ا', 'م', 'ج']) := by
      decide +kernel
    rw [Token.Formed, hword]
    exact .word (by decide) (List.all_eq_true.mp (by decide))
  simp only [Program.tokens, List.forall_mem_cons, List.forall_mem_append]
  refine ⟨hkeyword, ?_, formed_mark (by decide), formed_mark (by decide), ?_,
    formed_mark (by decide), formed_mark (by decide), by simp⟩
  · rw [Token.Formed, (Lexeme.Formed.eq_of_identifier hname hn).2] at hname
    exact hname
  · intro t hmem
    obtain ⟨vs, hvs, htv⟩ := List.mem_flatten.mp hmem
    refine forall_mem_intersperse (P := fun vs => ∀ t ∈ vs, t.Formed) ?_ ?_ vs hvs t htv
    · exact List.forall_mem_singleton.mpr (formed_mark (by decide))
    · rw [List.forall_mem_map]
      exact hs.formed_tokens hus

/-- A blank in front of a text does not change what it spells. -/
lemma Spells.cons_blank {b : Char} {cs : List Char} {ls : List Lexeme} (h : Spells cs ls)
    (hb : Text.isBlank b = true) : Spells (b :: cs) ls := by
  cases h with
  | nil hbs => exact .nil (List.forall_mem_cons.mpr ⟨hb, hbs⟩)
  | cons hbs hl he hr => exact .cons (List.forall_mem_cons.mpr ⟨hb, hbs⟩) hl he hr

lemma Spells.cons_text {cs : List Char} {l : Lexeme} {ls : List Lexeme} (h : Spells cs ls)
    (hl : l.Stable) (he : Lexeme.Ends cs) : Spells (l.text.toList ++ cs) (l :: ls) := by
  have h' : Spells ([] ++ (l.text.toList ++ cs)) (l :: ls) := .cons (by simp) hl he h
  exact h'

/-- Tokens with single spaces between them spell their lexemes. -/
lemma spells_intercalate (h : ∀ t ∈ ts, t.Formed) :
    Spells ([' '].intercalate (ts.map fun t => t.lexeme.toList)) (ts.map Token.toLexeme) := by
  have hspace : Text.isBlank ' ' = true := by decide
  induction ts with
  | nil => exact .nil (by simp)
  | cons t ts ih =>
    obtain ⟨ht, hts⟩ := List.forall_mem_cons.mp h
    have hstable := Lexeme.Formed.stable ht
    cases ts with
    | nil =>
      rw [List.map_singleton, List.intercalate_singleton, ← List.append_nil t.lexeme.toList]
      exact (Spells.nil (by simp)).cons_text hstable (by simp [Lexeme.Ends])
    | cons u us =>
      rw [List.map_cons, List.map_cons, List.intercalate_cons_cons, List.append_assoc]
      exact ((ih hts).cons_blank hspace).cons_text hstable (by simpa [Lexeme.Ends] using hspace)

/-- The text of a program is read as its tokens, at the places where they stand in the text. -/
lemma tokenize_unparse {p : Program} (h : ∀ t ∈ p.tokens, t.Formed) :
    ∃ ts, tokenize (unparse p) = .ok ts ∧ SameLexemes ts (p.tokens ++ [mark .eof "EOF"]) := by
  have hspells := spells_intercalate h
  have htext : (Cursor.ofSource (unparse p)).rest =
      [' '].intercalate (p.tokens.map fun t => t.lexeme.toList) := by
    rw [Cursor.ofSource, unparse, String.toList_intercalate, List.map_map]
    rfl
  rw [← htext] at hspells
  obtain ⟨ts, hts, hmap⟩ := Cursor.tokenize_of_spells hspells (by
    rw [List.forall_mem_map]
    exact fun t ht => Lexeme.Formed.kind_ne_eof (h t ht))
  refine ⟨ts, hts, ?_⟩
  rw [SameLexemes, hmap, List.map_append]
  rfl

/-- The text of a parsed tree is parsed again, to the same tree up to places. In particular its
parentheses are nested within the limit. -/
theorem parse_unparse {source : String} {p : Program} (h : parse source = .ok p) :
    ∃ q, parse (unparse p) = .ok q ∧ q.unplaced = p.unplaced := by
  obtain ⟨n, us, s, s', ho, hm, hd, hn, hh⟩ := exists_derives_of_parse h
  obtain ⟨ts, hts, hsame⟩ := tokenize_unparse (hd.formed_tokens (hm.formed ho))
  obtain ⟨k, hk, hd'⟩ := hd.exists_derives_tokens
  obtain ⟨q, hq, hun⟩ := hd'.replace hsame
  have hun' : q.unplaced = p.unplaced := hun
  refine ⟨q, (parse_of_derives hts hq).1 ⟨hk.trans hn, ?_⟩, hun'⟩
  exact Program.forall_height_le hun' hh

theorem parse_unparse_grouped :
    ∃ p q, parse "برنامج س ; \x7b س = ( ( 1 - 2 ) ) - ( 3 - ( ! ( - 4 ) ) ) ; \x7d ." = .ok p ∧
      unparse p = "برنامج س ; \x7b س = 1 - 2 - ( 3 - ! ( - 4 ) ) \x7d ." ∧
      parse (unparse p) = .ok q ∧ q.unplaced = p.unplaced := by
  have h : (parse "برنامج س ; \x7b س = ( ( 1 - 2 ) ) - ( 3 - ( ! ( - 4 ) ) ) ; \x7d .").map unparse =
      .ok "برنامج س ; \x7b س = 1 - 2 - ( 3 - ! ( - 4 ) ) \x7d ." := by
    decide +kernel
  cases hp : parse "برنامج س ; \x7b س = ( ( 1 - 2 ) ) - ( 3 - ( ! ( - 4 ) ) ) ; \x7d ." with
  | error e =>
    rw [hp] at h
    cases h
  | ok p =>
    rw [hp] at h
    obtain ⟨q, hq, hun⟩ := parse_unparse hp
    exact ⟨p, q, rfl, Except.ok.inj h, hq, hun⟩

end Barnamaj
