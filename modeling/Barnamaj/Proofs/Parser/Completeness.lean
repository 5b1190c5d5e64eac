import Barnamaj.Proofs.Grammar.Derivation
import Barnamaj.Proofs.Parser.Moves

/-!
# Derived tokens are parsed

Given the tokens of a derivation, a step of the parser finds the derived tree if the derivation
keeps the limits, and otherwise stops with the report that a limit is exceeded. A chain of operators
is read from its left end on, so the statements about it are equations: after the tokens of the left
end, the parser is where it would be had it started with the tree of that end.
-/

namespace Barnamaj

namespace Parse

variable {α β : Type} {m : Parse α} {f : α → Parse β} {p q r : Parser} {c d : Prop}

/-! ### Outcomes under a limit -/

/-- The outcome that a limit is exceeded, be it that of the nesting or that of the height. -/
def OverLimit (x : EStateM.Result ParseError Parser α) : Prop :=
  ∃ fault t q, fault ∈ [GrammarFault.nestedTooDeeply, .tooHigh] ∧
    x = .error (.grammar ⟨fault, t⟩) q

/-- An outcome that is `y` if the limits `c` are kept, and the report of a limit otherwise. -/
def Limited (c : Prop) (x y : EStateM.Result ParseError Parser α) : Prop :=
  (c → x = y) ∧ (¬ c → OverLimit x)

lemma Limited.of_eq {x y : EStateM.Result ParseError Parser α} (hc : c) (h : x = y) :
    Limited c x y :=
  ⟨fun _ => h, fun hn => absurd hc hn⟩

lemma Limited.congr {x y : EStateM.Result ParseError Parser α} (h : Limited c x y)
    (hc : c ↔ d) : Limited d x y :=
  ⟨fun hd => h.1 (hc.mpr hd), fun hd => h.2 (mt hc.mp hd)⟩

lemma Limited.trans {x y z : EStateM.Result ParseError Parser α} (h : Limited c x y)
    (h' : Limited d y z) : Limited (c ∧ d) x z := by
  refine ⟨fun hcd => (h.1 hcd.1).trans (h'.1 hcd.2), fun hn => ?_⟩
  by_cases hc : c
  · rw [h.1 hc]
    exact h'.2 fun hd => hn ⟨hc, hd⟩
  · exact h.2 hc

lemma OverLimit.bind (h : OverLimit (m p)) : OverLimit ((m >>= f) p) := by
  obtain ⟨fault, t, q, hf, h⟩ := h
  exact ⟨fault, t, q, hf, bind_of_error h⟩

lemma Limited.bind {a : α} {y : EStateM.Result ParseError Parser β}
    (h : Limited c (m p) (.ok a q)) (h' : Limited d (f a q) y) :
    Limited (c ∧ d) ((m >>= f) p) y := by
  refine Limited.trans (y := f a q) ⟨fun hc => bind_of_ok (h.1 hc), fun hc => ?_⟩ h'
  exact (h.2 hc).bind

lemma Limited.of_ok {a : α} {y : EStateM.Result ParseError Parser β} (h : m p = .ok a q)
    (h' : Limited c (f a q) y) : Limited c ((m >>= f) p) y := by
  rw [bind_of_ok h]
  exact h'

lemma limited_checkHeight (operator : Token) (e : Expression) (p : Parser) :
    Limited (e.height ≤ maxHeight) (checkHeight operator e p) (.ok e p) := by
  rw [checkHeight]
  split
  · next h => exact .of_eq h rfl
  · next h => exact ⟨fun hc => absurd hc h, fun _ => ⟨.tooHigh, operator, p, by simp, rfl⟩⟩

/-! ### Chains of operators -/

variable {kinds : List TokenKind} {operand : Parse Expression} {left right : Expression}

lemma chain_of_notMem (h : p.current.kind ∉ kinds) :
    chain kinds operand left p = .ok left p := by
  rw [chain, bind_of_ok (accept_of_notMem h)]
  rfl

/-- One turn of a chain. -/
lemma limited_chain (hk : p.current.kind ∈ kinds) (ha : advance p = .ok () r)
    (ho : Limited c (operand r) (.ok right q)) :
    Limited (c ∧ (Expression.binary p.current left right).height ≤ maxHeight)
      (chain kinds operand left p) (chain kinds operand (.binary p.current left right) q) := by
  rw [chain]
  refine .of_ok (accept_of_mem hk ha) (ho.bind ?_)
  split
  · next h => exact .of_eq h rfl
  · next h =>
    exact ⟨fun hc => absurd hc h, fun _ => ⟨.tooHigh, p.current, q, by simp, rfl⟩⟩

/-! ### Factors -/

lemma atom_of_literal (hk : p.current.kind ∈ TokenKind.literal) (ha : advance p = .ok () q) :
    atom p = .ok (some (.literal p.current)) q :=
  bind_of_ok (accept_of_mem hk ha)

lemma atom_of_identifier (hk : p.current.kind = .identifier) (ha : advance p = .ok () q) :
    atom p = .ok (some (.access p.current)) q := by
  have hl : p.current.kind ∉ TokenKind.literal := by rw [hk]; decide
  exact (bind_of_ok (accept_of_notMem hl)).trans (bind_of_ok (accept_of_mem (by simp [hk]) ha))

lemma atom_of_notMem (hk : p.current.kind ∉ TokenKind.literal)
    (hi : p.current.kind ≠ .identifier) : atom p = .ok none p :=
  (bind_of_ok (accept_of_notMem hk)).trans (bind_of_ok (accept_of_notMem (by simpa using hi)))

lemma factor_of_atom {e : Expression} (h : atom p = .ok (some e) q) (levels : Nat) :
    factor levels p = .ok e q := by
  cases levels with
  | zero => rw [factor, bind_of_ok h]; rfl
  | succ levels => rw [factor, bind_of_ok h]; rfl

/-- The tokens that open a level are no atoms. -/
lemma atom_of_opening (hk : p.current.kind ∈ [TokenKind.lparen, .not]) :
    atom p = .ok none p := by
  have hk' : p.current.kind = .lparen ∨ p.current.kind = .not := by simpa using hk
  rcases hk' with h | h <;> exact atom_of_notMem (by rw [h]; decide) (by simp [h])

/-- Where no level is left, a token that would open one is refused. -/
lemma overLimit_factor_zero (hk : p.current.kind ∈ [TokenKind.lparen, .not]) :
    OverLimit (factor 0 p) :=
  ⟨.nestedTooDeeply, p.current, _, by simp,
    (bind_of_ok (atom_of_opening hk)).trans (refuse_of_mem hk)⟩

/-- A derived factor behind `!` is found where a level is left to open. -/
lemma limited_factor_not {levels : Nat} {e : Expression} (hk : p.current.kind = .not)
    (ha : advance p = .ok () r) (h : Limited c (factor levels r) (.ok e q)) :
    Limited (c ∧ (Expression.unary p.current e).height ≤ maxHeight) (factor (levels + 1) p)
      (.ok (.unary p.current e) q) := by
  rw [factor]
  refine .of_ok (atom_of_opening (by simp [hk])) ?_
  refine .of_ok (accept_of_mem (by simp [hk]) ha) ?_
  exact h.bind (limited_checkHeight p.current (.unary p.current e) q)

/-- A derived expression in parentheses is found where a level is left to open. -/
lemma limited_factor_parens {levels : Nat} {e : Expression} {s : Parser}
    (hk : p.current.kind = .lparen) (ha : advance p = .ok () r)
    (h : Limited c (expression (factor levels) r) (.ok e q)) (hr : q.current.kind = .rparen)
    (hs : advance q = .ok () s) : Limited c (factor (levels + 1) p) (.ok e s) := by
  rw [factor]
  refine .of_ok (atom_of_opening (by simp [hk])) ?_
  refine .of_ok (accept_of_notMem (by simp [hk])) ?_
  refine .of_ok (accept_of_mem (by simp [hk]) ha) ?_
  refine (h.bind (d := True) (.of_eq trivial ?_)).congr (by simp)
  exact bind_of_ok (expect_of_advance hr hs)

/-! ### Expressions -/

/-- What a step makes of the tokens of a derivation, level by level. A term or a simple expression
may be the left end of a longer chain; what follows a whole expression must not continue it. -/
def Found : Level → Nat → List Token → Expression → Prop
  | .factor, n, ts, e => ∀ (levels : Nat) (p q : Parser), p.Moves ts q →
      Limited (n ≤ levels ∧ e.height ≤ maxHeight) (factor levels p) (.ok e q)
  | .term, n, ts, e => ∀ (levels : Nat) (p q : Parser), p.Moves ts q →
      Limited (n ≤ levels ∧ e.height ≤ maxHeight) (term (factor levels) p)
        (chain TokenKind.multiplicative (factor levels) e q)
  | .simple, n, ts, e => ∀ (levels : Nat) (p q : Parser), p.Moves ts q →
      q.current.kind ∉ TokenKind.multiplicative →
      Limited (n ≤ levels ∧ e.height ≤ maxHeight) (simple (factor levels) p)
        (chain TokenKind.additive (term (factor levels)) e q)
  | .expression, n, ts, e => ∀ (levels : Nat) (p q : Parser), p.Moves ts q →
      q.current.kind ∉ TokenKind.joining →
      Limited (n ≤ levels ∧ e.height ≤ maxHeight) (expression (factor levels) p) (.ok e q)

/-- A term is found whole where no further factor is joined to it. -/
lemma Found.term {n : Nat} {ts : List Token} {e : Expression} (h : Found .term n ts e)
    (levels : Nat) (hm : p.Moves ts q) (hk : q.current.kind ∉ TokenKind.multiplicative) :
    Limited (n ≤ levels ∧ e.height ≤ maxHeight) (term (factor levels) p) (.ok e q) := by
  have := h levels p q hm
  rwa [chain_of_notMem hk] at this

/-- A simple expression is found whole where neither a factor nor a term is joined to it. -/
lemma Found.simple {n : Nat} {ts : List Token} {e : Expression} (h : Found .simple n ts e)
    (levels : Nat) (hm : p.Moves ts q) (hk : q.current.kind ∉ TokenKind.multiplicative)
    (hk' : q.current.kind ∉ TokenKind.additive) :
    Limited (n ≤ levels ∧ e.height ≤ maxHeight) (simple (factor levels) p) (.ok e q) := by
  have := h levels p q hm hk
  rwa [chain_of_notMem hk'] at this

/-- The limits of a binary expression are those of its parts and its own height. -/
lemma limits_binary {levels n n' : Nat} {op : Token} {a b : Expression} :
    ((n ≤ levels ∧ a.height ≤ maxHeight) ∧ (n' ≤ levels ∧ b.height ≤ maxHeight) ∧
      (Expression.binary op a b).height ≤ maxHeight) ↔
    max n n' ≤ levels ∧ (Expression.binary op a b).height ≤ maxHeight := by
  simp only [Expression.height]
  omega

lemma found_of_derives {l : Level} {n : Nat} {ts : List Token} {e : Expression}
    (h : Derives l n ts e) : Found l n ts e := by
  induction h with
  | literal ht =>
    intro levels p q hm
    obtain ⟨rfl, r, ha, hr⟩ := Parser.moves_cons_iff.mp hm
    obtain rfl := Parser.moves_nil_iff.mp hr
    exact .of_eq (by simp [Expression.height, maxHeight]) (factor_of_atom (atom_of_literal ht ha) _)
  | access ht =>
    intro levels p q hm
    obtain ⟨rfl, r, ha, hr⟩ := Parser.moves_cons_iff.mp hm
    obtain rfl := Parser.moves_nil_iff.mp hr
    exact .of_eq (by simp [Expression.height, maxHeight])
      (factor_of_atom (atom_of_identifier ht ha) _)
  | not hop _ ih =>
    intro levels p q hm
    obtain ⟨rfl, r, ha, hr⟩ := Parser.moves_cons_iff.mp hm
    cases levels with
    | zero => exact ⟨by simp, fun _ => overLimit_factor_zero (by simp [hop])⟩
    | succ levels =>
      apply (limited_factor_not hop ha (ih levels r q hr)).congr
      simp only [Expression.height]
      omega
  | parens hl _ hr ih =>
    intro levels p q hm
    obtain ⟨rfl, r, ha, hm⟩ := Parser.moves_cons_iff.mp hm
    obtain ⟨s, hs, hm⟩ := Parser.moves_append_iff.mp hm
    obtain ⟨rfl, t, ha', ht⟩ := Parser.moves_cons_iff.mp hm
    obtain rfl := Parser.moves_nil_iff.mp ht
    cases levels with
    | zero => exact ⟨by simp, fun _ => overLimit_factor_zero (by simp [hl])⟩
    | succ levels =>
      have hin := ih levels r s hs (by rw [hr]; decide)
      exact (limited_factor_parens hl ha hin hr ha').congr (by simp)
  | ofFactor _ ih =>
    intro levels p q hm
    exact ((ih levels p q hm).bind (d := True) (.of_eq trivial rfl)).congr (by simp)
  | multiply _ hop _ iha ihb =>
    intro levels p q hm
    obtain ⟨r, hr, hm⟩ := Parser.moves_append_iff.mp hm
    obtain ⟨rfl, s, ha, hs⟩ := Parser.moves_cons_iff.mp hm
    exact ((iha levels p r hr).trans (limited_chain hop ha (ihb levels s q hs))).congr
      limits_binary
  | ofTerm hd ih =>
    intro levels p q hm hk
    -- the first token is that of a factor, so no sign is taken
    have hsign : p.current.kind ∉ TokenKind.additive := by
      obtain ⟨t, us, rfl, ht⟩ := hd.exists_eq_cons
      obtain ⟨rfl, -⟩ := Parser.moves_cons_iff.mp hm
      exact fun hc => TokenKind.notMem_factorStart_of_additive _ hc (ht (Or.inr rfl))
    refine .of_ok (accept_of_notMem hsign) ?_
    refine ((ih.term levels hm hk).bind (d := True) ?_).congr (by simp)
    exact .of_eq trivial rfl
  | sign hop _ ih =>
    intro levels p q hm hk
    obtain ⟨rfl, r, ha, hr⟩ := Parser.moves_cons_iff.mp hm
    refine .of_ok (accept_of_mem hop ha) ?_
    refine ((ih.term levels hr hk).bind
      ((limited_checkHeight p.current (.unary p.current _) q).bind (d := True)
        (.of_eq trivial rfl))).congr ?_
    simp only [Expression.height, and_true]
    omega
  | add _ hop _ iha ihb =>
    intro levels p q hm hk
    obtain ⟨r, hr, hm⟩ := Parser.moves_append_iff.mp hm
    obtain ⟨rfl, s, ha, hs⟩ := Parser.moves_cons_iff.mp hm
    have hleft := iha levels p r hr (TokenKind.notMem_multiplicative_of_additive _ hop)
    exact (hleft.trans (limited_chain hop ha (ihb.term levels hs hk))).congr limits_binary
  | ofSimple _ ih =>
    intro levels p q hm hk
    simp only [TokenKind.joining, List.mem_append, not_or] at hk
    refine ((ih.simple levels hm hk.1.1 hk.1.2).bind (d := True) ?_).congr (by simp)
    exact .of_eq trivial (bind_of_ok (accept_of_notMem hk.2))
  | relate _ hop _ iha ihb =>
    intro levels p q hm hk
    simp only [TokenKind.joining, List.mem_append, not_or] at hk
    obtain ⟨r, hr, hm⟩ := Parser.moves_append_iff.mp hm
    obtain ⟨rfl, s, ha, hs⟩ := Parser.moves_cons_iff.mp hm
    have hleft := iha.simple levels hr (TokenKind.notMem_multiplicative_of_relational _ hop)
      (TokenKind.notMem_additive_of_relational _ hop)
    have hright := ihb.simple levels hs hk.1.1 hk.1.2
    exact (hleft.bind (.of_ok (accept_of_mem hop ha) (hright.bind
      (limited_checkHeight r.current (.binary r.current _ _) q)))).congr limits_binary

/-! ### Statements -/

lemma limited_wholeExpression {n : Nat} {ts : List Token} {e : Expression}
    (h : Derives .expression n ts e) (hm : p.Moves ts q) (hk : q.current.kind ∉ TokenKind.joining) :
    Limited (n ≤ maxNesting - p.depth ∧ e.height ≤ maxHeight) (wholeExpression p) (.ok e q) := by
  have hget : (get : Parse Parser) p = .ok p p := rfl
  exact .of_ok hget (found_of_derives h (maxNesting - p.depth) p q hm hk)

lemma printItem_of_derives {i : PrintItem} (h : DerivesItem p.current i)
    (ha : advance p = .ok () q) : printItem p = .ok i q := by
  rcases h with hk | hk
  · exact bind_of_ok (accept_of_mem hk ha)
  · have hl : p.current.kind ∉ [TokenKind.stringLiteral, .charLiteral] := by rw [hk]; decide
    exact (bind_of_ok (accept_of_notMem hl)).trans (bind_of_ok (expect_of_advance hk ha))

/-- The items behind the first one are found, up to where no comma follows. -/
lemma collect_items {ts : List Token} {is : List PrintItem} (h : DerivesItems ts is)
    (hm : p.Moves ts q) (hk : q.current.kind ≠ .comma) :
    collect nextItem consumesSome_nextItem p = .ok is q := by
  induction h generalizing p with
  | nil =>
    obtain rfl := Parser.moves_nil_iff.mp hm
    exact collect_of_none (bind_of_ok (accept_of_notMem (by simpa using hk)))
  | cons hc ht _ ih =>
    obtain ⟨rfl, r, ha, hm⟩ := Parser.moves_cons_iff.mp hm
    obtain ⟨rfl, s, ha', hm⟩ := Parser.moves_cons_iff.mp hm
    have hnext : nextItem p = .ok (some _) s :=
      (bind_of_ok (accept_of_mem (by simp [hc]) ha)).trans
        (bind_of_ok (printItem_of_derives ht ha'))
    rw [collect_of_some hnext]
    exact bind_of_ok (ih hm)

/-- The limits of a statement. -/
def StatementLimits (levels n : Nat) (s : Statement) : Prop :=
  n ≤ levels ∧ ∀ e ∈ s.expressions, e.height ≤ maxHeight

lemma limited_statement {n : Nat} {ts : List Token} {s : Statement} (h : DerivesStatement n ts s)
    (hm : p.Moves ts q) (hk : q.current.kind ∉ TokenKind.joining) :
    Limited (StatementLimits (maxNesting - p.depth) n s) (statement p) (.ok s q) := by
  cases h with
  | @assignment target sign n ts e ht hs he =>
    obtain ⟨rfl, r, ha, hm⟩ := Parser.moves_cons_iff.mp hm
    obtain ⟨rfl, s, ha', hm⟩ := Parser.moves_cons_iff.mp hm
    refine .of_ok (accept_of_mem (by simp [ht]) ha) (.of_ok (expect_of_advance hs ha') ?_)
    apply ((limited_wholeExpression he hm hk).bind (d := True) (.of_eq trivial rfl)).congr
    rw [depth_advance ha', depth_advance ha]
    simp [StatementLimits, Statement.expressions]
  | @print keyword l t r ts i is hkw hl ht hs hr =>
    obtain ⟨rfl, p₁, ha₁, hm⟩ := Parser.moves_cons_iff.mp hm
    obtain ⟨rfl, p₂, ha₂, hm⟩ := Parser.moves_cons_iff.mp hm
    obtain ⟨rfl, p₃, ha₃, hm⟩ := Parser.moves_cons_iff.mp hm
    obtain ⟨p₄, hmi, hm⟩ := Parser.moves_append_iff.mp hm
    obtain ⟨rfl, p₅, ha₅, hm⟩ := Parser.moves_cons_iff.mp hm
    obtain rfl := Parser.moves_nil_iff.mp hm
    have hitems := collect_items hs hmi (by simp [hr])
    refine .of_ok (accept_of_notMem (by simp [hkw])) (.of_ok (accept_of_mem (by simp [hkw]) ha₁) ?_)
    refine .of_ok (expect_of_advance hl ha₂) (.of_ok (printItem_of_derives ht ha₃) ?_)
    refine .of_ok hitems (.of_ok (expect_of_advance hr ha₅) ?_)
    exact .of_eq (by simp [StatementLimits, Statement.expressions]) rfl
  | read hkw hl ht hr =>
    obtain ⟨rfl, p₁, ha₁, hm⟩ := Parser.moves_cons_iff.mp hm
    obtain ⟨rfl, p₂, ha₂, hm⟩ := Parser.moves_cons_iff.mp hm
    obtain ⟨rfl, p₃, ha₃, hm⟩ := Parser.moves_cons_iff.mp hm
    obtain ⟨rfl, p₄, ha₄, hm⟩ := Parser.moves_cons_iff.mp hm
    obtain rfl := Parser.moves_nil_iff.mp hm
    refine .of_ok (accept_of_notMem (by simp [hkw])) (.of_ok (accept_of_notMem (by simp [hkw])) ?_)
    refine .of_ok (accept_of_mem (by simp [hkw]) ha₁) (.of_ok (expect_of_advance hl ha₂) ?_)
    refine .of_ok (expect_of_advance ht ha₃) (.of_ok (expect_of_advance hr ha₄) ?_)
    exact .of_eq (by simp [StatementLimits, Statement.expressions]) rfl

lemma separator_of_semicolon (hk : p.current.kind = .semicolon) (ha : advance p = .ok () q) :
    separator p = .ok () q :=
  bind_of_ok (accept_of_mem (by simp [hk]) ha)

lemma separator_of_rbrace (hk : p.current.kind = .rbrace) : separator p = .ok () p := by
  have hc : current p = .ok p.current p := rfl
  refine (bind_of_ok (accept_of_notMem (by simp [hk]))).trans ((bind_of_ok hc).trans ?_)
  rw [if_pos hk]
  rfl

lemma separator_of_ne (hc : p.current.kind ≠ .semicolon) (hb : p.current.kind ≠ .rbrace) :
    separator p = .error (.grammar ⟨.unseparated, p.current⟩) p := by
  have hcur : current p = .ok p.current p := rfl
  refine (bind_of_ok (accept_of_notMem (by simpa using hc))).trans ((bind_of_ok hcur).trans ?_)
  rw [if_neg hb]
  rfl

lemma nextStatement_of_mem (hk : p.current.kind ∈ [TokenKind.rbrace, .eof]) :
    nextStatement p = .ok none p := by
  have hc : current p = .ok p.current p := rfl
  rw [nextStatement, bind_of_ok hc, if_pos hk]
  rfl

lemma nextStatement_of_notMem (hk : p.current.kind ∉ [TokenKind.rbrace, .eof]) :
    nextStatement p = (do
      let s ← statement
      separator
      return some s) p := by
  have hc : current p = .ok p.current p := rfl
  rw [nextStatement, bind_of_ok hc, if_neg hk]

/-- Behind a statement that is found, its separator decides where the parser goes on. -/
lemma limited_nextStatement {n : Nat} {ts : List Token} {s : Statement}
    (h : DerivesStatement n ts s) (hm : p.Moves ts q) (hk : q.current.kind ∉ TokenKind.joining)
    (hs : separator q = .ok () r) :
    Limited (StatementLimits (maxNesting - p.depth) n s) (nextStatement p) (.ok (some s) r) := by
  have hfirst : p.current.kind ∉ [TokenKind.rbrace, .eof] := by
    cases h with
    | assignment ht _ _ =>
      obtain ⟨rfl, -⟩ := Parser.moves_cons_iff.mp hm
      simp [ht]
    | print hkw _ _ _ _ =>
      obtain ⟨rfl, -⟩ := Parser.moves_cons_iff.mp hm
      simp [hkw]
    | read hkw _ _ _ =>
      obtain ⟨rfl, -⟩ := Parser.moves_cons_iff.mp hm
      simp [hkw]
  rw [nextStatement_of_notMem hfirst]
  refine ((limited_statement h hm hk).bind (d := True) (.of_eq trivial ?_)).congr (by simp)
  exact bind_of_ok hs

/-- One turn of the loop over statements. -/
lemma limited_collect_cons {s : Statement} {rest : List Statement}
    (hs : Limited c (nextStatement p) (.ok (some s) r))
    (hr : Limited d (collect nextStatement consumesSome_nextStatement r) (.ok rest q)) :
    Limited (c ∧ d) (collect nextStatement consumesSome_nextStatement p)
      (.ok (s :: rest) q) := by
  refine Limited.trans (y := (do
      return s :: (← collect nextStatement consumesSome_nextStatement)) r) ⟨?_, ?_⟩ ?_
  · exact fun hc => collect_of_some (hs.1 hc)
  · intro hc
    obtain ⟨fault, t, q', hf, he⟩ := hs.2 hc
    exact ⟨fault, t, q', hf, collect_of_error he⟩
  · exact (hr.bind (d := True) (.of_eq trivial rfl)).congr (by simp)

lemma limited_body {n : Nat} {ts : List Token} {statements : List Statement}
    (h : DerivesBody n ts statements) (hm : p.Moves ts q) (hk : q.current.kind = .rbrace) :
    Limited (n ≤ maxNesting - p.depth ∧
        ∀ s ∈ statements, ∀ e ∈ s.expressions, e.height ≤ maxHeight)
      (collect nextStatement consumesSome_nextStatement p) (.ok statements q) := by
  have hend : nextStatement q = .ok none q := nextStatement_of_mem (by simp [hk])
  induction h generalizing p with
  | nil =>
    obtain rfl := Parser.moves_nil_iff.mp hm
    exact .of_eq (by simp) (collect_of_none hend)
  | last hs =>
    have hfollow : q.current.kind ∉ TokenKind.joining := by rw [hk]; decide
    refine (limited_collect_cons (limited_nextStatement hs hm hfollow
      (separator_of_rbrace hk)) (d := True)
      (.of_eq trivial (collect_of_none hend))).congr ?_
    simp [StatementLimits]
  | cons hs hc _ ih =>
    obtain ⟨r, hr, hm⟩ := Parser.moves_append_iff.mp hm
    obtain ⟨rfl, s, ha, hm⟩ := Parser.moves_cons_iff.mp hm
    have hfollow : r.current.kind ∉ TokenKind.joining := by rw [hc]; decide
    refine (limited_collect_cons (limited_nextStatement hs hr hfollow
      (separator_of_semicolon hc ha)) (ih hm)).congr ?_
    rw [depth_advance ha, hr.depth_eq]
    simp only [StatementLimits, Nat.max_le, List.forall_mem_cons]
    tauto

/-! ### Programs -/

/-- The tokens of a program are parsed to its tree within the limits, and refused beyond them. -/
lemma limited_program {n : Nat} {ts : List Token} {tree : Program} (h : DerivesProgram n ts tree)
    (hm : p.Moves ts q) :
    Limited (n ≤ maxNesting - p.depth ∧ ∀ e ∈ tree.expressions, e.height ≤ maxHeight)
      (program p) (.ok tree q) := by
  obtain ⟨hk, hn, hc, hl, hs, hr, hd, he⟩ := h
  obtain ⟨rfl, p₁, ha₁, hm⟩ := Parser.moves_cons_iff.mp hm
  obtain ⟨rfl, p₂, ha₂, hm⟩ := Parser.moves_cons_iff.mp hm
  obtain ⟨rfl, p₃, ha₃, hm⟩ := Parser.moves_cons_iff.mp hm
  obtain ⟨rfl, p₄, ha₄, hm⟩ := Parser.moves_cons_iff.mp hm
  obtain ⟨p₅, hms, hm⟩ := Parser.moves_append_iff.mp hm
  obtain ⟨rfl, p₆, ha₆, hm⟩ := Parser.moves_cons_iff.mp hm
  obtain ⟨rfl, p₇, ha₇, hm⟩ := Parser.moves_cons_iff.mp hm
  obtain ⟨rfl, p₈, ha₈, hm⟩ := Parser.moves_cons_iff.mp hm
  obtain rfl := Parser.moves_nil_iff.mp hm
  refine .of_ok (expect_of_advance hk ha₁) (.of_ok (expect_of_advance hn ha₂) ?_)
  refine .of_ok (expect_of_advance hc ha₃) (.of_ok (expect_of_advance hl ha₄) ?_)
  refine ((limited_body hs hms hr).bind (d := True) ?_).congr ?_
  · refine .of_ok (expect_of_advance hr ha₆) (.of_ok (expect_of_advance hd ha₇) ?_)
    exact .of_ok (expect_of_advance he ha₈) (.of_eq trivial rfl)
  · rw [depth_advance ha₄, depth_advance ha₃, depth_advance ha₂, depth_advance ha₁]
    simp only [Program.expressions, List.mem_flatMap, and_true, forall_exists_index, and_imp]
    exact and_congr_right fun _ => ⟨fun h e s hs he => h s hs e he, fun h s hs e he => h e s hs he⟩

end Parse

end Barnamaj
