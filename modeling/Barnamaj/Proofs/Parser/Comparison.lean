import Barnamaj.Proofs.Parser.Moves
import Barnamaj.Proofs.Token.Tokenize
import Barnamaj.Proofs.Tree.Alike

/-!
# Two parsers side by side

A parser decides by the lexemes that it sees and by the number of levels that are counted as open.
So two parsers whose supplies correspond token by token do the same, routine by routine
(`Comparison.Simulates`): they find trees that are alike, or they stop with the same fault at
corresponding tokens. Errors of the first parser may be excused, and then nothing is said of the
second one: lexical faults that the second supply does not have, and refusals to open a level where
the second parser counts fewer levels as open.
-/

namespace Barnamaj

/-- The number of levels that stay counted as open behind an error. -/
def ParseError.residue : ParseError → Nat
  | .grammar ⟨.nestedTooDeeply, _⟩ => 1
  | _ => 0

/-- Errors that report one fault: of the same lexeme, or of corresponding tokens. -/
inductive ParseError.Alike (R : Token → Token → Prop) : ParseError → ParseError → Prop where
  | lexical (l : LexicalError) : Alike R (.lexical l) (.lexical l)
  | grammar {t u : Token} (fault : GrammarFault) (h : R t u) :
      Alike R (.grammar ⟨fault, t⟩) (.grammar ⟨fault, u⟩)

lemma ParseError.Alike.eq {e e' : ParseError} (h : e.Alike Eq e') : e = e' := by
  cases h with
  | lexical l => rfl
  | grammar fault h => rw [h]

/-- A correspondence between supplies: which tokens and which supplies correspond, and which errors
of a parser of the first supply are excused. Reading keeps it up, as far as no error is excused. -/
structure Correspondence (σ τ : Type) [Supply σ] [Supply τ] where
  token : Token → Token → Prop
  supply : σ → τ → Prop
  excused : ParseError → Prop
  toLexeme_eq {t u : Token} : token t u → t.toLexeme = u.toLexeme
  read {s : σ} {s' : τ} : supply s s' →
    (∃ l, Supply.read s = .error l ∧ excused (.lexical l)) ∨
      supply (Supply.rest s) (Supply.rest s') ∧
        ((∃ t u, Supply.read s = .ok t ∧ Supply.read s' = .ok u ∧ token t u) ∨
          ∃ l, Supply.read s = .error l ∧ Supply.read s' = .error l)

/-- A way to compare a parser with another one: a correspondence between their supplies, and how
many levels each of them counts as open. -/
structure Comparison (σ τ : Type) [Supply σ] [Supply τ] extends Correspondence σ τ where
  depth : Nat
  depth' : Nat
  depth_le : depth' ≤ depth
  nested (t : Token) : depth' < depth → excused (.grammar ⟨.nestedTooDeeply, t⟩)

namespace Comparison

variable {σ τ α β γ δ : Type} [Supply σ] [Supply τ] {C : Comparison σ τ}

lemma kind_eq {t u : Token} (h : C.token t u) : t.kind = u.kind :=
  congrArg Lexeme.kind (C.toLexeme_eq h)

lemma lexeme_eq {t u : Token} (h : C.token t u) : t.lexeme = u.lexeme :=
  congrArg Lexeme.text (C.toLexeme_eq h)

/-- The parsers look at corresponding tokens in corresponding supplies, and count `k` levels more as
open than at the start. -/
structure At (C : Comparison σ τ) (k : Nat) (p : Parser σ) (q : Parser τ) : Prop where
  current : C.token p.current q.current
  source : C.supply p.source q.source
  depth : p.depth = C.depth + k
  depth' : q.depth = C.depth' + k

/-- What becomes of a step of each parser: corresponding finds, the same fault, or an excused
error. -/
inductive Outcome (C : Comparison σ τ) (V : α → β → Prop) :
    EStateM.Result ParseError (Parser σ) α → EStateM.Result ParseError (Parser τ) β → Prop where
  | ok {a : α} {b : β} {p : Parser σ} {q : Parser τ} (hv : V a b) (h : C.At 0 p q) :
      Outcome C V (.ok a p) (.ok b q)
  | error {e f : ParseError} {p : Parser σ} {q : Parser τ} (he : e.Alike C.token f)
      (h : C.At e.residue p q) : Outcome C V (.error e p) (.error f q)
  | excused {e : ParseError} {p : Parser σ}
      {y : EStateM.Result ParseError (Parser τ) β} (he : C.excused e) : Outcome C V (.error e p) y

/-- Wherever the parsers correspond, so does what becomes of the steps. -/
def Simulates (C : Comparison σ τ) (m : ParseFrom σ α) (n : ParseFrom τ β) (V : α → β → Prop) :
    Prop :=
  ∀ p q, C.At 0 p q → C.Outcome V (m p) (n q)

/-! ### Steps -/

section Steps

variable {m : ParseFrom σ α} {n : ParseFrom τ β} {f : α → ParseFrom σ γ} {g : β → ParseFrom τ δ}
  {V : α → β → Prop} {W : γ → δ → Prop}

lemma simulates_pure {a : α} {b : β} (h : V a b) : C.Simulates (pure a) (pure b) V :=
  fun _ _ hpq => .ok h hpq

lemma Outcome.bind {p : Parser σ} {q : Parser τ} (h : C.Outcome V (m p) (n q))
    (hf : ∀ a b r s, V a b → C.At 0 r s → C.Outcome W (f a r) (g b s)) :
    C.Outcome W ((m >>= f) p) ((n >>= g) q) := by
  generalize hx : m p = x at h
  generalize hy : n q = y at h
  cases h with
  | ok hv h' =>
    rw [Parse.bind_of_ok hx, Parse.bind_of_ok hy]
    exact hf _ _ _ _ hv h'
  | error he h' =>
    rw [Parse.bind_of_error hx, Parse.bind_of_error hy]
    exact .error he h'
  | excused he =>
    rw [Parse.bind_of_error hx]
    exact .excused he

lemma Simulates.bind (hm : C.Simulates m n V)
    (hf : ∀ a b, V a b → C.Simulates (f a) (g b) W) : C.Simulates (m >>= f) (n >>= g) W :=
  fun p q hpq => (hm p q hpq).bind fun a b r s hv => hf a b hv r s

lemma simulates_fail {fault : GrammarFault} (hf : fault ≠ .nestedTooDeeply) :
    C.Simulates (Parse.fail fault : ParseFrom σ α) (Parse.fail fault : ParseFrom τ β) V := by
  intro p q hpq
  refine .error (.grammar fault hpq.current) ?_
  cases fault with
  | nestedTooDeeply => exact absurd rfl hf
  | _ => exact hpq

lemma simulates_tooHigh {t u : Token} (h : C.token t u) :
    C.Simulates (throw (.grammar ⟨.tooHigh, t⟩) : ParseFrom σ α)
      (throw (.grammar ⟨.tooHigh, u⟩) : ParseFrom τ β) V :=
  fun _ _ hpq => .error (.grammar _ h) hpq

lemma simulates_current : C.Simulates Parse.current Parse.current C.token :=
  fun _ _ hpq => .ok hpq.current hpq

lemma simulates_advance : C.Simulates Parse.advance Parse.advance fun _ _ => True := by
  intro p q hpq
  rcases C.read hpq.source with
    ⟨l, hp, hl⟩ | ⟨hrest, ⟨t, u, hp, hq, htu⟩ | ⟨l, hp, hq⟩⟩
  · rw [Parse.advance_of_fault hp]
    exact .excused hl
  · rw [Parse.advance_of_read hp, Parse.advance_of_read hq]
    exact .ok trivial ⟨htu, hrest, hpq.depth, hpq.depth'⟩
  · rw [Parse.advance_of_fault hp, Parse.advance_of_fault hq]
    exact .error (.lexical l) ⟨hpq.current, hrest, hpq.depth, hpq.depth'⟩

lemma simulates_accept (kinds : List TokenKind) :
    C.Simulates (Parse.accept kinds) (Parse.accept kinds) (Option.Rel C.token) := by
  refine simulates_current.bind fun t u htu => ?_
  rw [C.kind_eq htu]
  split
  · exact simulates_advance.bind fun _ _ _ => simulates_pure (.some htu)
  · exact simulates_pure .none

/-- A choice on whether a token of certain kinds comes next. -/
lemma simulates_accept_bind {kinds : List TokenKind} {f : Option Token → ParseFrom σ γ}
    {g : Option Token → ParseFrom τ δ} (hnone : C.Simulates (f none) (g none) W)
    (hsome : ∀ t u, C.token t u → C.Simulates (f (some t)) (g (some u)) W) :
    C.Simulates (Parse.accept kinds >>= f) (Parse.accept kinds >>= g) W := by
  refine (simulates_accept kinds).bind fun found found' h => ?_
  cases h with
  | none => exact hnone
  | some h => exact hsome _ _ h

lemma simulates_expect (place : Expectation) :
    C.Simulates (Parse.expect place) (Parse.expect place) C.token :=
  simulates_accept_bind (simulates_fail (by simp)) fun _ _ => simulates_pure

/-- A place that only one kind of token can fill, and what comes behind it. -/
lemma simulates_expect_bind {place : Expectation} {f : Token → ParseFrom σ γ}
    {g : Token → ParseFrom τ δ} (h : ∀ t u, C.token t u → C.Simulates (f t) (g u) W) :
    C.Simulates (Parse.expect place >>= f) (Parse.expect place >>= g) W :=
  (simulates_expect place).bind h

lemma simulates_collect {step : ParseFrom σ (Option α)} {step' : ParseFrom τ (Option β)}
    {hs : Parse.ConsumesSome step} {hs' : Parse.ConsumesSome step'}
    (h : C.Simulates step step' (Option.Rel V)) :
    C.Simulates (Parse.collect step hs) (Parse.collect step' hs') (List.Forall₂ V) := by
  intro p
  -- each find leaves the first parser less to read
  induction hn : p.remaining using Nat.strongRecOn generalizing p with
  | _ n ih =>
    intro q hpq
    have hstep := h p q hpq
    generalize hx : step p = x at hstep
    generalize hy : step' q = y at hstep
    cases hstep with
    | error he h' =>
      rw [Parse.collect_of_error hx, Parse.collect_of_error hy]
      exact .error he h'
    | excused he =>
      rw [Parse.collect_of_error hx]
      exact .excused he
    | @ok a b r s hv h' =>
      cases hv with
      | none =>
        rw [Parse.collect_of_none hx, Parse.collect_of_none hy]
        exact .ok .nil h'
      | @some a b hv =>
        rw [Parse.collect_of_some hx, Parse.collect_of_some hy]
        have htail : C.Outcome (List.Forall₂ V) (Parse.collect step hs r)
            (Parse.collect step' hs' s) := ih _ (hn ▸ hs p a r hx) r rfl s h'
        exact htail.bind fun as bs _ _ hvs h'' => .ok (.cons hv hvs) h''

end Steps

/-! ### Expressions -/

section Expressions

variable {factor : ParseFrom σ Expression} {factor' : ParseFrom τ Expression}

/-- The steps find expressions that are alike. -/
abbrev SimulatesExpression (C : Comparison σ τ) (m : ParseFrom σ Expression)
    (n : ParseFrom τ Expression) : Prop :=
  C.Simulates m n (Expression.Alike C.token)

lemma simulates_checkHeight {t u : Token} {e e' : Expression} (h : C.token t u)
    (he : e.Alike C.token e') :
    C.SimulatesExpression (Parse.checkHeight t e) (Parse.checkHeight u e') := by
  rw [Parse.checkHeight, Parse.checkHeight, he.height_eq]
  split
  · exact simulates_pure he
  · exact simulates_tooHigh h

lemma simulates_chain (kinds : List TokenKind) (hf : C.SimulatesExpression factor factor')
    {left left' : Expression} (hl : left.Alike C.token left') :
    C.SimulatesExpression (Parse.chain kinds factor left) (Parse.chain kinds factor' left') := by
  induction hn : maxHeight - left.height using Nat.strongRecOn generalizing left left' with
  | _ n ih =>
    rw [Parse.chain, Parse.chain]
    refine simulates_accept_bind (simulates_pure hl) fun t u htu => ?_
    refine hf.bind fun right right' hr => ?_
    have hjoined : (Expression.binary t left right).Alike C.token (.binary u left' right') :=
      .binary htu hl hr
    by_cases hh : (Expression.binary t left right).height ≤ maxHeight
    · have hh' := hh
      rw [hjoined.height_eq] at hh'
      rw [dif_pos hh, dif_pos hh']
      refine ih _ ?_ hjoined rfl
      simp only [Expression.height] at hh ⊢
      omega
    · have hh' := hh
      rw [hjoined.height_eq] at hh'
      rw [dif_neg hh, dif_neg hh']
      exact simulates_tooHigh htu

lemma simulates_term (hf : C.SimulatesExpression factor factor') :
    C.SimulatesExpression (Parse.term factor) (Parse.term factor') :=
  hf.bind fun _ _ h => simulates_chain _ hf h

lemma simulates_simple (hf : C.SimulatesExpression factor factor') :
    C.SimulatesExpression (Parse.simple factor) (Parse.simple factor') := by
  refine (simulates_accept _).bind fun sign sign' hsign => ?_
  refine (simulates_term hf).bind fun first first' hfirst => ?_
  refine Simulates.bind ?_ fun _ _ h => simulates_chain _ (simulates_term hf) h
  cases hsign with
  | none => exact simulates_pure hfirst
  | some hsign => exact simulates_checkHeight hsign (.unary hsign hfirst)

lemma simulates_expression (hf : C.SimulatesExpression factor factor') :
    C.SimulatesExpression (Parse.expression factor) (Parse.expression factor') := by
  refine (simulates_simple hf).bind fun left left' hl => ?_
  refine simulates_accept_bind (simulates_pure hl) fun t u htu => ?_
  exact (simulates_simple hf).bind fun right right' hr =>
    simulates_checkHeight htu (.binary htu hl hr)

lemma simulates_atom :
    C.Simulates Parse.atom Parse.atom (Option.Rel (Expression.Alike C.token)) := by
  refine simulates_accept_bind ?_ fun t u htu => simulates_pure (.some (.literal htu))
  refine (simulates_accept _).bind fun found found' h => simulates_pure ?_
  cases h with
  | none => exact .none
  | some h => exact .some (.access h)

lemma simulates_refuse : C.SimulatesExpression Parse.refuse Parse.refuse := by
  intro p q hpq
  have hkind := C.kind_eq hpq.current
  by_cases hk : p.current.kind ∈ [TokenKind.lparen, .not]
  · rw [Parse.refuse_of_mem hk, Parse.refuse_of_mem (hkind ▸ hk)]
    refine .error (.grammar _ hpq.current) ⟨hpq.current, hpq.source, ?_, ?_⟩
    · simp only [hpq.depth, ParseError.residue, Nat.add_zero]
    · simp only [hpq.depth', ParseError.residue, Nat.add_zero]
  · rw [Parse.refuse_of_notMem hk, Parse.refuse_of_notMem (hkind ▸ hk)]
    exact .error (.grammar _ hpq.current) hpq

/-- A refusal to open a level is excused, whatever the second parser does where it may open one. -/
lemma simulates_refuse_of_lt (hd : C.depth' < C.depth) {n : ParseFrom τ Expression}
    (hn : ∀ q, q.current.kind ∉ [TokenKind.lparen, .not] → n q = Parse.refuse q) :
    C.SimulatesExpression Parse.refuse n := by
  intro p q hpq
  by_cases hk : p.current.kind ∈ [TokenKind.lparen, .not]
  · rw [Parse.refuse_of_mem hk]
    exact .excused (C.nested _ hd)
  · rw [hn q (C.kind_eq hpq.current ▸ hk)]
    exact simulates_refuse p q hpq

/-- A parser may be compared with one that may open more levels, if it counts more as open. -/
lemma simulates_factor {levels levels' : Nat} (hle : levels ≤ levels')
    (hlt : levels < levels' → C.depth' < C.depth) :
    C.SimulatesExpression (Parse.factor levels) (Parse.factor levels') := by
  induction levels generalizing levels' with
  | zero =>
    cases levels' with
    | zero =>
      rw [Parse.factor]
      refine simulates_atom.bind fun found found' h => ?_
      cases h with
      | none => exact simulates_refuse
      | some h => exact simulates_pure h
    | succ levels' =>
      rw [Parse.factor, Parse.factor]
      refine simulates_atom.bind fun found found' h => ?_
      cases h with
      | none =>
        refine simulates_refuse_of_lt (hlt (Nat.succ_pos _)) fun q hk => ?_
        have hk' : q.current.kind ≠ .lparen ∧ q.current.kind ≠ .not := by simpa using hk
        exact (Parse.bind_of_ok (Parse.accept_of_notMem (by simp [hk']))).trans
          (Parse.bind_of_ok (Parse.accept_of_notMem (by simp [hk'])))
      | some h => exact simulates_pure h
  | succ levels ih =>
    obtain ⟨levels', rfl⟩ : ∃ l, levels' = l + 1 := ⟨levels' - 1, by omega⟩
    have hrec : C.SimulatesExpression (Parse.factor levels) (Parse.factor levels') :=
      ih (by omega) fun h => hlt (by omega)
    rw [Parse.factor, Parse.factor]
    refine simulates_atom.bind fun found found' h => ?_
    cases h with
    | some h => exact simulates_pure h
    | none =>
      refine simulates_accept_bind ?_ fun t u htu => ?_
      · refine simulates_accept_bind simulates_refuse fun _ _ _ => ?_
        refine (simulates_expression hrec).bind fun e e' he => ?_
        exact simulates_expect_bind fun _ _ _ => simulates_pure he
      · exact hrec.bind fun e e' he => simulates_checkHeight htu (.unary htu he)

lemma simulates_wholeExpression :
    C.SimulatesExpression Parse.wholeExpression Parse.wholeExpression := by
  intro p q hpq
  have hfactor : C.SimulatesExpression (Parse.factor (maxNesting - p.depth))
      (Parse.factor (maxNesting - q.depth)) := by
    have hle := C.depth_le
    have hp := hpq.depth
    have hq := hpq.depth'
    exact simulates_factor (by omega) fun h => by omega
  exact simulates_expression hfactor p q hpq

end Expressions

/-! ### Statements and programs -/

lemma simulates_printItem :
    C.Simulates Parse.printItem Parse.printItem (PrintItem.Alike C.token) := by
  refine simulates_accept_bind ?_ fun t u htu => simulates_pure (.literal htu)
  exact simulates_expect_bind fun t u htu => simulates_pure (.access htu)

lemma simulates_nextItem :
    C.Simulates Parse.nextItem Parse.nextItem (Option.Rel (PrintItem.Alike C.token)) := by
  refine simulates_accept_bind (simulates_pure .none) fun _ _ _ => ?_
  exact simulates_printItem.bind fun i j h => simulates_pure (.some h)

lemma simulates_assignmentTo {t u : Token} (h : C.token t u) :
    C.Simulates (Parse.assignmentTo t) (Parse.assignmentTo u) (Statement.Alike C.token) :=
  simulates_expect_bind fun _ _ _ =>
    simulates_wholeExpression.bind fun _ _ he => simulates_pure (.assignment h he)

lemma simulates_printWith {t u : Token} (h : C.token t u) :
    C.Simulates (Parse.printWith t) (Parse.printWith u) (Statement.Alike C.token) := by
  refine simulates_expect_bind fun _ _ _ => ?_
  refine simulates_printItem.bind fun first first' hfirst => ?_
  refine (simulates_collect simulates_nextItem).bind fun others others' hothers => ?_
  exact simulates_expect_bind fun _ _ _ => simulates_pure (.print h (.cons hfirst hothers))

lemma simulates_readWith {t u : Token} (h : C.token t u) :
    C.Simulates (Parse.readWith t) (Parse.readWith u) (Statement.Alike C.token) :=
  simulates_expect_bind fun _ _ _ => simulates_expect_bind fun _ _ ht =>
    simulates_expect_bind fun _ _ _ => simulates_pure (.read h ht)

lemma simulates_statement :
    C.Simulates Parse.statement Parse.statement (Statement.Alike C.token) := by
  refine simulates_accept_bind ?_ fun _ _ => simulates_assignmentTo
  refine simulates_accept_bind ?_ fun _ _ => simulates_printWith
  exact simulates_accept_bind (simulates_fail (by simp)) fun _ _ => simulates_readWith

lemma simulates_separator :
    C.Simulates Parse.separator Parse.separator fun _ _ => True := by
  refine simulates_accept_bind ?_ fun _ _ _ => simulates_pure trivial
  refine simulates_current.bind fun t u htu => ?_
  rw [C.kind_eq htu]
  split
  · exact simulates_pure trivial
  · exact simulates_fail (by simp)

lemma simulates_nextStatement :
    C.Simulates Parse.nextStatement Parse.nextStatement
      (Option.Rel (Statement.Alike C.token)) := by
  refine simulates_current.bind fun t u htu => ?_
  rw [C.kind_eq htu]
  split
  · exact simulates_pure .none
  · refine simulates_statement.bind fun s s' hs => ?_
    exact simulates_separator.bind fun _ _ _ => simulates_pure (.some hs)

/-- Parsers that correspond find programs that are alike, or stop with the same fault. -/
lemma simulates_program : C.Simulates Parse.program Parse.program (Program.Alike C.token) := by
  refine simulates_expect_bind fun keyword keyword' hk => ?_
  refine simulates_expect_bind fun name name' hn => ?_
  refine simulates_expect_bind fun _ _ _ => ?_
  refine simulates_expect_bind fun brace brace' hb => ?_
  refine (simulates_collect simulates_nextStatement).bind fun ss ss' hs => ?_
  refine simulates_expect_bind fun _ _ _ => ?_
  refine simulates_expect_bind fun _ _ _ => ?_
  refine simulates_expect_bind fun _ _ _ => simulates_pure ?_
  rw [C.lexeme_eq hn]
  exact .mk hk hb hs

end Comparison

namespace Correspondence

variable {σ τ : Type} [Supply σ] [Supply τ] (K : Correspondence σ τ)

/-- The comparison of parsers that have just been made. -/
def afresh : Comparison σ τ :=
  { K with
    depth := 0
    depth' := 0
    depth_le := Nat.le_refl 0
    nested := fun _ h => absurd h (Nat.lt_irrefl 0) }

/-- What corresponding supplies hold is parsed alike, as far as no error is excused. -/
lemma parseFrom_cases {s : σ} {s' : τ} (h : K.supply s s') :
    (∃ e, parseFrom s = .error e ∧ K.excused e) ∨
      (∃ tree tree', parseFrom s = .ok tree ∧ parseFrom s' = .ok tree' ∧
        tree.Alike K.token tree') ∨
      ∃ e e', parseFrom s = .error e ∧ parseFrom s' = .error e' ∧ e.Alike K.token e' := by
  rcases K.read h with ⟨l, hs, hl⟩ | ⟨hrest, ⟨t, u, hs, hs', htu⟩ | ⟨l, hs, hs'⟩⟩
  · refine Or.inl ⟨.lexical l, ?_, hl⟩
    simp only [parseFrom, Parser.ofSupply, hs, Except.map]
  · have hprogram := Comparison.simulates_program (C := K.afresh)
      { current := t, source := Supply.rest s } { current := u, source := Supply.rest s' }
      ⟨htu, hrest, rfl, rfl⟩
    simp only [parseFrom, Parser.ofSupply, hs, hs', Except.map]
    generalize Parse.program { current := t, source := Supply.rest s } = x at hprogram ⊢
    generalize Parse.program { current := u, source := Supply.rest s' } = y at hprogram ⊢
    cases hprogram with
    | ok hv _ => exact Or.inr (Or.inl ⟨_, _, rfl, rfl, hv⟩)
    | error he _ => exact Or.inr (Or.inr ⟨_, _, rfl, rfl, he⟩)
    | excused he => exact Or.inl ⟨_, rfl, he⟩
  · refine Or.inr (Or.inr ⟨.lexical l, .lexical l, ?_, ?_, .lexical l⟩)
    · simp only [parseFrom, Parser.ofSupply, hs, Except.map]
    · simp only [parseFrom, Parser.ofSupply, hs', Except.map]

/-- Supplies of the same tokens are parsed in the same way. -/
lemma parseFrom_eq {s : σ} {s' : τ} (h : K.supply s s') (htoken : K.token = Eq)
    (hexcused : ∀ e, ¬ K.excused e) : parseFrom s = parseFrom s' := by
  have hcases := K.parseFrom_cases h
  rw [htoken] at hcases
  rcases hcases with ⟨e, -, he⟩ | ⟨tree, tree', hs, hs', halike⟩ | ⟨e, e', hs, hs', halike⟩
  · exact absurd he (hexcused e)
  · rw [hs, hs', halike.eq]
  · rw [hs, hs', halike.eq]

end Correspondence

end Barnamaj
