import Barnamaj.Proofs.Parser.Moves

/-!
# What parsers take

`Parser.Passes p ts q` says that taking the tokens `ts`, none of which is the end, leads from `p` to
`q`. Every routine of the parser walks in this way, whatever becomes of it (`Parse.Walks`). It never
takes the end, and where it fails, it has passed some tokens and stopped in front of one, or could
not read what stands behind one. Only the last step of a program takes the end.
-/

namespace Barnamaj

/-! ### Tokens that are passed -/

namespace Parser

variable {σ : Type} [Supply σ] {p q r : Parser σ} {ts us : List Token}

/-- Taking the tokens `ts`, none of which is the end, leads from one parser to another. -/
inductive Passes : Parser σ → List Token → Parser σ → Prop where
  | refl (p : Parser σ) : Passes p [] p
  | step {p q r : Parser σ} {ts : List Token} (hk : p.current.kind ≠ .eof)
      (h : Parse.advance p = .ok () q) (hs : Passes q ts r) : Passes p (p.current :: ts) r

/-- At least one token leads from one parser to another, and none of those that do is the end. -/
def Gains (p q : Parser σ) : Prop :=
  ∃ ts, ts ≠ [] ∧ p.Passes ts q

lemma Passes.single (hk : p.current.kind ≠ .eof) (h : Parse.advance p = .ok () q) :
    p.Passes [p.current] q :=
  .step hk h (.refl q)

lemma Passes.trans (h : p.Passes ts q) (h' : q.Passes us r) : p.Passes (ts ++ us) r := by
  induction h with
  | refl p => exact h'
  | step hk ha _ ih => exact .step hk ha (ih h')

/-- Every token that is passed leaves less to read. -/
lemma Passes.remaining_le (h : p.Passes ts q) : q.remaining + ts.length ≤ p.remaining := by
  induction h with
  | refl p => simp
  | @step p q r ts hk ha _ ih =>
    have hq := Parse.remaining_advance ha
    have hp : p.remaining = Supply.size p.source + 1 := by simp [remaining, hk]
    simp only [List.length_cons]
    omega

lemma Gains.remaining_lt (h : p.Gains q) : q.remaining < p.remaining := by
  obtain ⟨ts, hts, hpass⟩ := h
  have hle := hpass.remaining_le
  have hpos := List.length_pos_iff.mpr hts
  omega

end Parser

/-! ### Steps -/

namespace Parse

variable {σ α β : Type} [Supply σ] {m : ParseFrom σ α} {f : α → ParseFrom σ β} {p q : Parser σ}
  {ts : List Token} {x : EStateM.Result ParseError (Parser σ) α}

/-- What has become of a step that started at a parser. It has passed some tokens. Then it has
succeeded; or it has refused something, and may have counted a level; or what stands behind a token
that is not the end could not be read. -/
inductive Walked (p : Parser σ) : EStateM.Result ParseError (Parser σ) α → Prop where
  | ok {a : α} {q : Parser σ} {ts : List Token} (h : p.Passes ts q) : Walked p (.ok a q)
  | refused {g : GrammarError} {r : Parser σ} {ts : List Token} (depth : Nat) (h : p.Passes ts r) :
      Walked p (.error (.grammar g) { r with depth })
  | unread {l : LexicalError} {q r : Parser σ} {ts : List Token} (h : p.Passes ts r)
      (hk : r.current.kind ≠ .eof) (ha : advance r = .error (.lexical l) q) :
      Walked p (.error (.lexical l) q)

/-- Wherever it starts, the step takes no end. -/
def Walks (m : ParseFrom σ α) : Prop :=
  ∀ p, Walked p (m p)

/-- What has failed may have been part of anything. -/
lemma Walked.error {e : ParseError}
    (h : Walked p (.error e q : EStateM.Result ParseError (Parser σ) α)) :
    Walked p (.error e q : EStateM.Result ParseError (Parser σ) β) := by
  cases h with
  | refused depth h => exact .refused depth h
  | unread h hk ha => exact .unread h hk ha

lemma Walked.prepend (h : p.Passes ts q) (hx : Walked q x) : Walked p x := by
  cases hx with
  | ok h' => exact .ok (h.trans h')
  | refused depth h' => exact .refused depth (h.trans h')
  | unread h' hk ha => exact .unread (h.trans h') hk ha

lemma walks_pure (a : α) : Walks (pure a : ParseFrom σ α) :=
  fun p => .ok (.refl p)

lemma walks_throw (g : GrammarError) : Walks (throw (.grammar g) : ParseFrom σ α) :=
  fun p => .refused p.depth (.refl p)

lemma walks_fail (fault : GrammarFault) : Walks (fail fault : ParseFrom σ α) :=
  fun p => .refused p.depth (.refl p)

lemma walks_current : Walks (current : ParseFrom σ Token) :=
  fun p => .ok (.refl p)

lemma walks_get : Walks (get : ParseFrom σ (Parser σ)) :=
  fun p => .ok (.refl p)

lemma Walked.bind (h : Walked p (m p)) (hf : ∀ a, Walks (f a)) : Walked p ((m >>= f) p) := by
  cases hx : m p with
  | ok a q =>
    rw [hx] at h
    rw [bind_of_ok hx]
    cases h with
    | ok h => exact (hf a q).prepend h
  | error e q =>
    rw [hx] at h
    rw [bind_of_error hx]
    exact h.error

lemma Walks.bind (hm : Walks m) (hf : ∀ a, Walks (f a)) : Walks (m >>= f) :=
  fun p => (hm p).bind hf

lemma accept_of_fault {kinds : List TokenKind} {e : ParseError} (hk : p.current.kind ∈ kinds)
    (ha : advance p = .error e q) : accept kinds p = .error e q := by
  have hc : current p = .ok p.current p := rfl
  rw [accept, bind_of_ok hc, if_pos hk, bind_of_error ha]

lemma walks_accept {kinds : List TokenKind} (hk : .eof ∉ kinds) :
    Walks (accept kinds : ParseFrom σ (Option Token)) := by
  intro p
  by_cases hmem : p.current.kind ∈ kinds
  · have hne : p.current.kind ≠ .eof := fun he => hk (he ▸ hmem)
    cases ha : advance p with
    | ok _ q =>
      rw [accept_of_mem hmem ha]
      exact .ok (.single hne ha)
    | error e q =>
      obtain ⟨l, rfl⟩ := advance_eq_error ha
      rw [accept_of_fault hmem ha]
      exact .unread (.refl p) hne ha
  · rw [accept_of_notMem hmem]
    exact .ok (.refl p)

/-- A choice on whether a token of certain kinds comes next. -/
lemma walks_accept_bind {kinds : List TokenKind} {f : Option Token → ParseFrom σ β}
    (hk : .eof ∉ kinds) (hnone : Walks (f none)) (hsome : ∀ t, Walks (f (some t))) :
    Walks (accept kinds >>= f) := by
  refine (walks_accept hk).bind fun found => ?_
  cases found with
  | none => exact hnone
  | some t => exact hsome t

lemma walks_expect {place : Expectation} (hk : place.kind ≠ .eof) :
    Walks (expect place : ParseFrom σ Token) :=
  walks_accept_bind (by simpa using hk.symm) (walks_fail _) walks_pure

lemma walks_collect {step : ParseFrom σ (Option α)} {hs : ConsumesSome step} (h : Walks step) :
    Walks (collect step hs) := by
  intro p
  -- each find leaves less to read
  induction hn : p.remaining using Nat.strongRecOn generalizing p with
  | _ n ih =>
    have hp := h p
    match hstep : step p with
    | .error e q =>
      rw [hstep] at hp
      rw [collect_of_error hstep]
      exact hp.error
    | .ok none q =>
      rw [hstep] at hp
      rw [collect_of_none hstep]
      cases hp with
      | ok h => exact .ok h
    | .ok (some a) q =>
      rw [hstep] at hp
      rw [collect_of_some hstep]
      cases hp with
      | ok h =>
        have hrest := ih _ (hn ▸ hs p a q hstep) q rfl
        exact (hrest.bind fun as => walks_pure (a :: as)).prepend h

/-! ### Expressions -/

lemma walks_checkHeight (operator : Token) (e : Expression) :
    Walks (checkHeight operator e : ParseFrom σ Expression) := by
  rw [checkHeight]
  split
  · exact walks_pure e
  · exact walks_throw _

/-- One turn of a chain: a further operator and its operand, if there is an operator. -/
def turn (kinds : List TokenKind) (operand : ParseFrom σ Expression) :
    ParseFrom σ (Option (Token × Expression)) := do
  match ← accept kinds with
  | none => return none
  | some operator => return some (operator, ← operand)

/-- A chain goes on turn by turn, as long as there is an operator and the tree is not too high. -/
lemma chain_eq (kinds : List TokenKind) (operand : ParseFrom σ Expression) (left : Expression) :
    chain kinds operand left = (do
      match ← turn kinds operand with
      | none => return left
      | some (operator, right) =>
        if (Expression.binary operator left right).height ≤ maxHeight then
          chain kinds operand (.binary operator left right)
        else throw (.grammar ⟨.tooHigh, operator⟩)) := by
  rw [chain, turn, bind_assoc]
  refine bind_congr fun found => ?_
  cases found with
  | none => simp
  | some operator => simp

lemma walks_turn {kinds : List TokenKind} (hk : .eof ∉ kinds) {operand : ParseFrom σ Expression}
    (ho : Walks operand) : Walks (turn kinds operand) :=
  walks_accept_bind hk (walks_pure none) fun _ => ho.bind fun _ => walks_pure _

lemma walks_chain {kinds : List TokenKind} (hk : .eof ∉ kinds) {operand : ParseFrom σ Expression}
    (ho : Walks operand) (left : Expression) : Walks (chain kinds operand left) := by
  -- each turn makes the tree on the left higher, up to the limit
  induction hn : maxHeight - left.height using Nat.strongRecOn generalizing left with
  | _ n ih =>
    rw [chain_eq]
    refine (walks_turn hk ho).bind fun found => ?_
    match found with
    | none => exact walks_pure left
    | some (operator, right) =>
      dsimp only
      split
      · next h =>
        refine ih _ ?_ (.binary operator left right) rfl
        simp only [Expression.height] at h ⊢
        omega
      · exact walks_throw _

section

variable {factor : ParseFrom σ Expression} (hf : Walks factor)

include hf

lemma walks_term : Walks (term factor) :=
  hf.bind fun first => walks_chain (by decide) hf first

lemma walks_simple : Walks (simple factor) := by
  refine (walks_accept (by decide)).bind fun sign => (walks_term hf).bind fun first => ?_
  refine Walks.bind ?_ fun signed => walks_chain (by decide) (walks_term hf) signed
  cases sign with
  | none => exact walks_pure first
  | some operator => exact walks_checkHeight operator _

lemma walks_expression : Walks (expression factor) := by
  refine (walks_simple hf).bind fun left => ?_
  refine walks_accept_bind (by decide) (walks_pure left) fun operator => ?_
  exact (walks_simple hf).bind fun right => walks_checkHeight operator _

end

lemma walks_atom : Walks (atom : ParseFrom σ (Option Expression)) :=
  walks_accept_bind (by decide) ((walks_accept (by decide)).bind fun _ => walks_pure _) fun _ =>
    walks_pure _

/-- A level that is refused is counted, but nothing is taken. -/
lemma walks_refuse : Walks (refuse : ParseFrom σ Expression) := by
  intro p
  by_cases hk : p.current.kind ∈ [TokenKind.lparen, .not]
  · rw [refuse_of_mem hk]
    exact .refused (p.depth + 1) (.refl p)
  · rw [refuse_of_notMem hk]
    exact .refused p.depth (.refl p)

lemma walks_factor (levels : Nat) : Walks (factor levels : ParseFrom σ Expression) := by
  induction levels with
  | zero =>
    refine walks_atom.bind fun found => ?_
    cases found with
    | some e => exact walks_pure e
    | none => exact walks_refuse
  | succ levels ih =>
    refine walks_atom.bind fun found => ?_
    cases found with
    | some e => exact walks_pure e
    | none =>
      refine walks_accept_bind (by decide) ?_ fun operator =>
        ih.bind fun operand => walks_checkHeight operator _
      refine walks_accept_bind (by decide) walks_refuse fun _ => ?_
      exact (walks_expression ih).bind fun e =>
        (walks_expect (by decide)).bind fun _ => walks_pure e

lemma walks_wholeExpression : Walks (wholeExpression : ParseFrom σ Expression) :=
  walks_get.bind fun _ => walks_expression (walks_factor _)

/-! ### Statements and programs -/

lemma walks_variableName : Walks (variableName : ParseFrom σ Token) :=
  walks_expect (by decide)

lemma walks_printItem : Walks (printItem : ParseFrom σ PrintItem) :=
  walks_accept_bind (by decide) (walks_variableName.bind fun _ => walks_pure _) fun _ =>
    walks_pure _

lemma walks_nextItem : Walks (nextItem : ParseFrom σ (Option PrintItem)) :=
  walks_accept_bind (by decide) (walks_pure none) fun _ =>
    walks_printItem.bind fun _ => walks_pure _

lemma walks_assignmentTo (target : Token) : Walks (assignmentTo target : ParseFrom σ Statement) :=
  (walks_expect (by decide)).bind fun _ => walks_wholeExpression.bind fun _ => walks_pure _

lemma walks_printWith (keyword : Token) : Walks (printWith keyword : ParseFrom σ Statement) :=
  (walks_expect (by decide)).bind fun _ => walks_printItem.bind fun _ =>
    (walks_collect walks_nextItem).bind fun _ =>
      (walks_expect (by decide)).bind fun _ => walks_pure _

lemma walks_readWith (keyword : Token) : Walks (readWith keyword : ParseFrom σ Statement) :=
  (walks_expect (by decide)).bind fun _ => walks_variableName.bind fun _ =>
    (walks_expect (by decide)).bind fun _ => walks_pure _

lemma walks_statement : Walks (statement : ParseFrom σ Statement) := by
  refine walks_accept_bind (by decide) ?_ walks_assignmentTo
  refine walks_accept_bind (by decide) ?_ walks_printWith
  exact walks_accept_bind (by decide) (walks_fail _) walks_readWith

lemma walks_separator : Walks (separator : ParseFrom σ Unit) := by
  refine walks_accept_bind (by decide) ?_ fun _ => walks_pure ()
  refine walks_current.bind fun token => ?_
  split
  · exact walks_pure ()
  · exact walks_fail _

lemma walks_nextStatement : Walks (nextStatement : ParseFrom σ (Option Statement)) := by
  refine walks_current.bind fun token => ?_
  split
  · exact walks_pure none
  · exact walks_statement.bind fun _ => walks_separator.bind fun _ => walks_pure _

/-- A program up to the end of the text, which is not taken. -/
def untilEnd : ParseFrom σ Program := do
  let keyword ← expect .programStart
  let name ← expect .programName
  let _ ← expect .programNameEnd
  let brace ← expect .blockStart
  let statements ← collect nextStatement consumesSome_nextStatement
  let _ ← expect .blockEnd
  let _ ← expect .programEnd
  return { position := keyword.position, name := name.lexeme,
           bodyPosition := brace.position, statements }

/-- Only the last step of a program takes the end. -/
lemma program_eq : (program : ParseFrom σ Program) = (do
    let tree ← untilEnd
    let _ ← expect .endOfFile
    return tree) := by
  simp only [program, untilEnd, bind_assoc, pure_bind]

lemma walks_untilEnd : Walks (untilEnd : ParseFrom σ Program) := by
  refine (walks_expect (by decide)).bind fun _ => (walks_expect (by decide)).bind fun _ =>
    (walks_expect (by decide)).bind fun _ => (walks_expect (by decide)).bind fun _ => ?_
  refine (walks_collect walks_nextStatement).bind fun _ => ?_
  exact (walks_expect (by decide)).bind fun _ => (walks_expect (by decide)).bind fun _ =>
    walks_pure _

/-- A program takes no end, or it takes one in its last step. -/
lemma program_cases (p : Parser σ) :
    Walked p (program p) ∨ ∃ ts q, p.Passes ts q ∧ q.current.kind = .eof ∧
      ((∃ tree r, advance q = .ok () r ∧ program p = .ok tree r) ∨
        ∃ e r, advance q = .error e r ∧ program p = .error e r) := by
  have h := walks_untilEnd p
  rw [program_eq]
  cases hx : untilEnd p with
  | error e q =>
    rw [hx] at h
    rw [bind_of_error hx]
    exact Or.inl h.error
  | ok tree q =>
    rw [hx] at h
    rw [bind_of_ok hx]
    cases h with
    | @ok _ _ ts h =>
      -- only the last step is left, which asks for the end
      by_cases hk : q.current.kind = .eof
      · refine Or.inr ⟨ts, q, h, hk, ?_⟩
        cases ha : advance q with
        | ok _ r =>
          refine Or.inl ⟨tree, r, rfl, ?_⟩
          rw [bind_of_ok (expect_of_advance hk ha)]
          rfl
        | error e r =>
          refine Or.inr ⟨e, r, rfl, ?_⟩
          have haccept : accept [Expectation.endOfFile.kind] q = .error e r :=
            accept_of_fault (List.mem_singleton.mpr hk) ha
          rw [expect, bind_assoc, bind_of_error haccept]
      · left
        have haccept : accept [Expectation.endOfFile.kind] q = .ok none q :=
          accept_of_notMem (mt List.mem_singleton.mp hk)
        rw [expect, bind_assoc, bind_of_ok haccept]
        exact .refused q.depth h

/-! ### Routines -/

/-- The routines for parts of a program that are never empty. A factor is parsed inside of any
number of levels. -/
inductive Consuming : {α : Type} → ParseFrom σ α → Prop where
  | statement : Consuming statement
  | printItem : Consuming printItem
  | wholeExpression : Consuming wholeExpression
  | expression (levels : Nat) : Consuming (expression (factor levels))
  | simple (levels : Nat) : Consuming (simple (factor levels))
  | term (levels : Nat) : Consuming (term (factor levels))
  | factor (levels : Nat) : Consuming (factor levels)

/-- The routines of the parser, below the one for programs. -/
inductive Routine : {α : Type} → ParseFrom σ α → Prop where
  | consuming {α : Type} {m : ParseFrom σ α} (h : Consuming m) : Routine m
  | statements : Routine (collect nextStatement consumesSome_nextStatement)
  | nextStatement : Routine nextStatement
  | separator : Routine separator
  | assignment (target : Token) : Routine (assignmentTo target)
  | print (keyword : Token) : Routine (printWith keyword)
  | read (keyword : Token) : Routine (readWith keyword)
  | items : Routine (collect nextItem consumesSome_nextItem)
  | nextItem : Routine nextItem
  | variableName : Routine variableName

/-- From one parser to another by a turn of a loop, for statements, for items to print, for terms or
for factors, or by the token behind which a factor is parsed inside of another one. -/
inductive Turn : Parser σ → Parser σ → Prop where
  | statement {p q : Parser σ} {s : Statement} (h : nextStatement p = .ok (some s) q) : Turn p q
  | item {p q : Parser σ} {i : PrintItem} (h : nextItem p = .ok (some i) q) : Turn p q
  | additive {p q : Parser σ} {x : Token × Expression} (levels : Nat)
      (h : turn TokenKind.additive (term (factor levels)) p = .ok (some x) q) : Turn p q
  | multiplicative {p q : Parser σ} {x : Token × Expression} (levels : Nat)
      (h : turn TokenKind.multiplicative (factor levels) p = .ok (some x) q) : Turn p q
  | negation {p q : Parser σ} {t : Token} (h : accept [.not] p = .ok (some t) q) : Turn p q
  | group {p q : Parser σ} {t : Token} (h : accept [.lparen] p = .ok (some t) q) : Turn p q

/-- A step that walks and leaves less to read has taken a token. -/
lemma Walks.gains {a : α} (hm : Walks m) (h : m p = .ok a q) (hlt : q.remaining < p.remaining) :
    p.Gains q := by
  have hp := hm p
  rw [h] at hp
  cases hp with
  | @ok _ _ ts hpass =>
    refine ⟨ts, ?_, hpass⟩
    rintro rfl
    cases hpass
    exact Nat.lt_irrefl _ hlt

lemma gains_of_accept {kinds : List TokenKind} (hk : .eof ∉ kinds) {t : Token}
    (h : accept kinds p = .ok (some t) q) : p.Gains q :=
  (walks_accept hk).gains h (consumesSome_accept hk p t q h)

lemma gains_of_turn {kinds : List TokenKind} (hk : .eof ∉ kinds) {operand : ParseFrom σ Expression}
    (hw : Walks operand) (ho : Keeps operand) {x : Token × Expression}
    (h : turn kinds operand p = .ok (some x) q) : p.Gains q := by
  refine (walks_turn hk hw).gains h ?_
  obtain ⟨found, r, hr, h⟩ := bind_eq_ok h
  cases found with
  | none => cases h
  | some operator =>
    obtain ⟨right, s, hs, h⟩ := bind_eq_ok h
    cases h
    exact Nat.lt_of_le_of_lt (ho r right _ hs) (consumesSome_accept hk p operator r hr)

lemma Consuming.walks (h : Consuming m) : Walks m := by
  cases h with
  | statement => exact walks_statement
  | printItem => exact walks_printItem
  | wholeExpression => exact walks_wholeExpression
  | expression levels => exact walks_expression (walks_factor levels)
  | simple levels => exact walks_simple (walks_factor levels)
  | term levels => exact walks_term (walks_factor levels)
  | factor levels => exact walks_factor levels

lemma Consuming.consumes (h : Consuming m) : Consumes m := by
  cases h with
  | statement => exact consumes_statement
  | printItem => exact consumes_printItem
  | wholeExpression => exact consumes_wholeExpression
  | expression levels => exact consumes_expression (consumes_factor levels)
  | simple levels => exact consumes_simple (consumes_factor levels)
  | term levels => exact consumes_term (consumes_factor levels)
  | factor levels => exact consumes_factor levels

lemma Routine.walks (h : Routine m) : Walks m := by
  cases h with
  | consuming h => exact h.walks
  | statements => exact walks_collect walks_nextStatement
  | nextStatement => exact walks_nextStatement
  | separator => exact walks_separator
  | assignment target => exact walks_assignmentTo target
  | print keyword => exact walks_printWith keyword
  | read keyword => exact walks_readWith keyword
  | items => exact walks_collect walks_nextItem
  | nextItem => exact walks_nextItem
  | variableName => exact walks_variableName

/-- What succeeds and is never empty has taken a token. -/
lemma Consuming.gains (h : Consuming m) {a : α} (hp : m p = .ok a q) : p.Gains q :=
  h.walks.gains hp (h.consumes p a q hp)

lemma Turn.gains (h : Turn p q) : p.Gains q := by
  cases h with
  | statement h => exact walks_nextStatement.gains h (consumesSome_nextStatement _ _ _ h)
  | item h => exact walks_nextItem.gains h (consumesSome_nextItem _ _ _ h)
  | additive levels h =>
    exact gains_of_turn (by decide) (walks_term (walks_factor levels))
      (consumes_term (consumes_factor levels)).keeps h
  | multiplicative levels h =>
    exact gains_of_turn (by decide) (walks_factor levels) (consumes_factor levels).keeps h
  | negation h => exact gains_of_accept (by decide) h
  | group h => exact gains_of_accept (by decide) h

end Parse

end Barnamaj
