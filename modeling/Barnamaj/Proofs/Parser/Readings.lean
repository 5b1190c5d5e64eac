import Barnamaj.Proofs.Parser.Acceptance
import Barnamaj.Proofs.Token.Tiling

/-!
# What a parser sees of a text

A parser pulls its tokens one by one, and may stop long before the text ends. Each token that it
looks at, and each lexical fault that stops it, is one of the readings of the text up to the first
fault. A step of the parser (`Parse.Tracks`) reports tokens that were looked at and lexical faults
that were met on the way, and nothing else.
-/

namespace Barnamaj

/-! ### Readings up to the first fault -/

lemma Reading.untilFault_subset (rs : List Reading) : untilFault rs ⊆ rs := by
  induction rs with
  | nil => exact List.Subset.refl _
  | cons r rs ih =>
    rw [untilFault]
    split
    · exact List.cons_subset_cons r ih
    · simp

lemma Reading.exists_mem_untilFault_of_tokens {rs : List Reading} {ts : List Token}
    (h : tokens rs = .ok ts) : ∀ t ∈ ts, ∃ r ∈ untilFault rs, r.outcome = .ok t := by
  induction rs generalizing ts with
  | nil =>
    cases h
    simp
  | cons r rs ih =>
    cases ho : r.outcome with
    | error e =>
      simp only [tokens, ho] at h
      cases h
    | ok t =>
      simp only [tokens, ho] at h
      simp only [untilFault, ho]
      cases hrest : tokens rs with
      | error e =>
        rw [hrest] at h
        cases h
      | ok us =>
        rw [hrest] at h
        cases h
        rw [List.forall_mem_cons]
        refine ⟨⟨r, List.mem_cons_self, ho⟩, fun u hu => ?_⟩
        obtain ⟨r', hr', ho'⟩ := ih hrest u hu
        exact ⟨r', List.mem_cons_of_mem r hr', ho'⟩

namespace Cursor

variable {c : Cursor} {t : Token}

/-- What is read first is among the readings up to the first fault. -/
lemma nextToken_mem_untilFault (c : Cursor) : c.nextToken ∈ Reading.untilFault c.readings := by
  rw [readings]
  split <;> rw [Reading.untilFault] <;> split <;> simp

/-- At the end of the text the same is read again and again. -/
lemma nextToken_of_eof (h : c.nextToken.outcome = .ok t) (hk : t.kind = .eof) :
    c.nextToken.next.nextToken = c.nextToken := by
  have hrest := rest_skipBlanks_of_eof h hk
  have hnext : c.nextToken.next = c.skipBlanks := by
    simp only [nextToken, read, hrest]
    rfl
  have hskip : c.skipBlanks.skipBlanks = c.skipBlanks := by
    rw [skipBlanks, hrest]
    rfl
  rw [hnext]
  simp only [nextToken, hskip]

/-- Behind a token there is nothing but further readings of the text. -/
lemma untilFault_nextToken_subset (h : c.nextToken.outcome = .ok t) :
    Reading.untilFault c.nextToken.next.readings ⊆ Reading.untilFault c.readings := by
  by_cases hk : t.kind = .eof
  · have hagain := nextToken_of_eof h hk
    rw [readings_of_eof (hagain.symm ▸ h) hk, hagain, readings_of_eof h hk]
    exact List.Subset.refl _
  · rw [readings_of_ne_eof h hk, Reading.untilFault, h]
    exact List.subset_cons_self _ _

end Cursor

/-! ### Parsers that are reached -/

namespace Parser

variable {c : Cursor} {o p q : Parser} {t : Token} {ts : List Token} {l : LexicalError}

/-- Some tokens lead from one parser to the other. -/
def Reaches (o p : Parser) : Prop :=
  ∃ ts, o.Moves ts p

/-- A parser that is reached looks at the token. -/
def Sees (o : Parser) (t : Token) : Prop :=
  ∃ p, o.Reaches p ∧ p.current = t

/-- Behind a parser that is reached, there is the lexical fault. -/
def Meets (o : Parser) (l : LexicalError) : Prop :=
  ∃ p, o.Reaches p ∧ p.source.nextToken.outcome = .error l

lemma Reaches.refl (p : Parser) : p.Reaches p :=
  ⟨[], .refl p⟩

lemma Reaches.advance (h : o.Reaches p) (ha : Parse.advance p = .ok () q) : o.Reaches q := by
  obtain ⟨ts, hm⟩ := h
  exact ⟨ts ++ [p.current], hm.trans (.single ha)⟩

lemma Reaches.sees (h : o.Reaches p) : o.Sees p.current :=
  ⟨p, h, rfl⟩

/-- Wherever a parser gets, it goes on in the readings of the text it was opened on. -/
lemma Moves.untilFault_subset (h : p.Moves ts q) (hp : Opens c p) :
    Reading.untilFault q.source.readings ⊆ Reading.untilFault c.readings ∧
      ∃ r ∈ Reading.untilFault c.readings, r.outcome = .ok q.current := by
  induction h generalizing c with
  | refl p =>
    obtain ⟨ho, hn⟩ := hp
    rw [← hn]
    exact ⟨Cursor.untilFault_nextToken_subset ho, _, c.nextToken_mem_untilFault, ho⟩
  | step ha _ ih =>
    obtain ⟨hsub, r, hr, hout⟩ := ih (opens_of_advance ha)
    obtain ⟨ho, hn⟩ := hp
    have hnext := Cursor.untilFault_nextToken_subset ho
    rw [hn] at hnext
    exact ⟨List.Subset.trans hsub hnext, r, hnext hr, hout⟩

/-- What a parser looks at was read from the text. -/
lemma Sees.exists_reading (h : p.Sees t) (hp : Opens c p) :
    ∃ r ∈ Reading.untilFault c.readings, r.outcome = .ok t := by
  obtain ⟨q, ⟨ts, hm⟩, rfl⟩ := h
  exact (hm.untilFault_subset hp).2

/-- A lexical fault that a parser meets was read from the text. -/
lemma Meets.exists_reading (h : p.Meets l) (hp : Opens c p) :
    ∃ r ∈ Reading.untilFault c.readings, r.outcome = .error l := by
  obtain ⟨q, ⟨ts, hm⟩, hl⟩ := h
  exact ⟨_, (hm.untilFault_subset hp).1 q.source.nextToken_mem_untilFault, hl⟩

/-- A parser that has taken tokens up to the end has taken all tokens of the text. -/
lemma Moves.tokenize_eq (h : p.Moves ts q) (hp : Opens c p) (he : EndsOnce ts) :
    c.tokenize = .ok ts := by
  induction h generalizing c with
  | refl p =>
    obtain ⟨us, ending, heq, -⟩ := he
    simp at heq
  | @step p q r ts ha _ ih =>
    obtain ⟨ho, hn⟩ := hp
    obtain ⟨us, ending, heq, hk, hus⟩ := he
    cases us with
    | nil =>
      cases heq
      exact Cursor.tokenize_of_eof ho hk
    | cons u us =>
      cases heq
      obtain ⟨hu, hus⟩ := List.forall_mem_cons.mp hus
      have htail := ih (opens_of_advance ha) ⟨us, ending, rfl, hk, hus⟩
      rw [Cursor.tokenize_of_ne_eof ho hu, hn, htail]
      rfl

end Parser

/-! ### Steps -/

namespace Parse

variable {α β : Type} {o : Parser} {m : Parse α} {f : α → Parse β} {P : α → Prop} {Q : β → Prop}
  {t : Token}

/-- What has become of a step is a parser that is reached and a find that fulfills a condition, or
the report of a token that was looked at or of a lexical fault that was met. -/
def Tracked (o : Parser) (P : α → Prop) : EStateM.Result ParseError Parser α → Prop
  | .ok a q => o.Reaches q ∧ P a
  | .error (.grammar e) _ => o.Sees e.token
  | .error (.lexical l) _ => o.Meets l

/-- Wherever it is reached, the step goes on to what is reached. -/
def Tracks (o : Parser) (m : Parse α) (P : α → Prop) : Prop :=
  ∀ p, o.Reaches p → Tracked o P (m p)

lemma tracks_pure {a : α} (ha : P a) : Tracks o (pure a) P :=
  fun _ hp => ⟨hp, ha⟩

lemma tracks_throw {fault : GrammarFault} (ht : o.Sees t) :
    Tracks o (throw (.grammar ⟨fault, t⟩) : Parse α) P :=
  fun _ _ => ht

lemma tracks_fail (fault : GrammarFault) : Tracks o (fail fault : Parse α) P :=
  fun _ hp => hp.sees

lemma tracks_current : Tracks o current o.Sees :=
  fun _ hp => ⟨hp, hp.sees⟩

lemma tracks_get : Tracks o (get : Parse Parser) fun _ => True :=
  fun _ hp => ⟨hp, trivial⟩

lemma Tracks.bind (hm : Tracks o m P) (hf : ∀ a, P a → Tracks o (f a) Q) :
    Tracks o (m >>= f) Q := by
  intro p hp
  have h := hm p hp
  cases hr : m p with
  | ok a r =>
    rw [hr] at h
    rw [bind_of_ok hr]
    exact hf a h.2 r h.1
  | error e r =>
    rw [hr] at h
    rw [bind_of_error hr]
    cases e with
    | grammar e => exact h
    | lexical l => exact h

lemma tracks_advance : Tracks o advance fun _ => True := by
  intro p hp
  cases ho : p.source.nextToken.outcome with
  | ok t =>
    have ha := Parser.advance_of_ok ho
    rw [ha]
    exact ⟨hp.advance ha, trivial⟩
  | error l =>
    rw [advance_of_fault ho]
    exact ⟨p, hp, ho⟩

lemma tracks_accept (kinds : List TokenKind) :
    Tracks o (accept kinds) fun found => ∀ t ∈ found, o.Sees t := by
  refine tracks_current.bind fun token ht => ?_
  split
  · exact tracks_advance.bind fun _ _ => tracks_pure (by simpa using ht)
  · exact tracks_pure (by simp)

/-- A choice on whether a token of certain kinds comes next. -/
lemma tracks_accept_bind {kinds : List TokenKind} {f : Option Token → Parse β}
    (hnone : Tracks o (f none) Q) (hsome : ∀ t, o.Sees t → Tracks o (f (some t)) Q) :
    Tracks o (accept kinds >>= f) Q := by
  refine (tracks_accept kinds).bind fun found hfound => ?_
  cases found with
  | none => exact hnone
  | some t => exact hsome t (hfound t rfl)

lemma tracks_expect (place : Expectation) : Tracks o (expect place) fun _ => True :=
  tracks_accept_bind (tracks_fail _) fun _ _ => tracks_pure trivial

/-- A place that only one kind of token can fill, and what comes behind it. -/
lemma tracks_expect_bind {place : Expectation} {f : Token → Parse β}
    (hf : ∀ t, Tracks o (f t) Q) : Tracks o (expect place >>= f) Q :=
  (tracks_expect place).bind fun t _ => hf t

lemma tracks_collect {step : Parse (Option α)} {hs : ConsumesSome step}
    (h : Tracks o step fun _ => True) : Tracks o (collect step hs) fun _ => True := by
  intro p hp
  -- each find leaves less to read
  induction hn : p.remaining using Nat.strongRecOn generalizing p with
  | _ n ih =>
    have htracked := h p hp
    match hstep : step p with
    | .error e q =>
      rw [hstep] at htracked
      rw [collect_of_error hstep]
      cases e with
      | grammar e => exact htracked
      | lexical l => exact htracked
    | .ok none q =>
      rw [hstep] at htracked
      rw [collect_of_none hstep]
      exact htracked
    | .ok (some a) q =>
      rw [hstep] at htracked
      rw [collect_of_some hstep]
      have hrest := ih _ (hn ▸ hs p a q hstep) q htracked.1 rfl
      cases hcollect : collect step hs q with
      | ok as r =>
        rw [hcollect] at hrest
        rw [bind_of_ok hcollect]
        exact hrest
      | error e r =>
        rw [hcollect] at hrest
        rw [bind_of_error hcollect]
        cases e with
        | grammar e => exact hrest
        | lexical l => exact hrest

/-! ### Expressions -/

lemma tracks_checkHeight (ht : o.Sees t) (e : Expression) :
    Tracks o (checkHeight t e) fun _ => True := by
  rw [checkHeight]
  split
  · exact tracks_pure trivial
  · exact tracks_throw ht

lemma tracks_chain (kinds : List TokenKind) {operand : Parse Expression}
    (ho : Tracks o operand fun _ => True) (left : Expression) :
    Tracks o (chain kinds operand left) fun _ => True := by
  induction hn : maxHeight - left.height using Nat.strongRecOn generalizing left with
  | _ n ih =>
    rw [chain]
    refine tracks_accept_bind (tracks_pure trivial) fun operator hop => ?_
    refine ho.bind fun right _ => ?_
    split
    · next h =>
      refine ih _ ?_ (.binary operator left right) rfl
      simp only [Expression.height] at h ⊢
      omega
    · exact tracks_throw hop

section

variable {factor : Parse Expression} (hf : Tracks o factor fun _ => True)

include hf

lemma tracks_term : Tracks o (term factor) fun _ => True :=
  hf.bind fun first _ => tracks_chain _ hf first

lemma tracks_simple : Tracks o (simple factor) fun _ => True := by
  refine (tracks_accept _).bind fun sign hsign => ?_
  refine (tracks_term hf).bind fun first _ => ?_
  refine Tracks.bind (P := fun _ => True) ?_ fun signed _ => tracks_chain _ (tracks_term hf) signed
  cases sign with
  | none => exact tracks_pure trivial
  | some operator => exact tracks_checkHeight (hsign operator rfl) _

lemma tracks_expression : Tracks o (expression factor) fun _ => True := by
  refine (tracks_simple hf).bind fun left _ => ?_
  refine tracks_accept_bind (tracks_pure trivial) fun operator hop => ?_
  exact (tracks_simple hf).bind fun right _ => tracks_checkHeight hop _

end

lemma tracks_atom : Tracks o atom fun _ => True :=
  tracks_accept_bind ((tracks_accept _).bind fun _ _ => tracks_pure trivial) fun _ _ =>
    tracks_pure trivial

/-- A level that is refused is counted, but the token that is reported was looked at before. -/
lemma tracks_refuse : Tracks o refuse fun _ => True := by
  intro p hp
  have hc : current p = .ok p.current p := rfl
  rw [refuse, bind_of_ok hc]
  split
  · exact hp.sees
  · exact hp.sees

lemma tracks_factor (levels : Nat) : Tracks o (factor levels) fun _ => True := by
  induction levels with
  | zero =>
    refine tracks_atom.bind fun found _ => ?_
    cases found with
    | some e => exact tracks_pure trivial
    | none => exact tracks_refuse
  | succ levels ih =>
    refine tracks_atom.bind fun found _ => ?_
    cases found with
    | some e => exact tracks_pure trivial
    | none =>
      refine tracks_accept_bind ?_ fun operator hop =>
        ih.bind fun operand _ => tracks_checkHeight hop _
      refine tracks_accept_bind tracks_refuse fun _ _ => ?_
      exact (tracks_expression ih).bind fun e _ => tracks_expect_bind fun _ => tracks_pure trivial

lemma tracks_wholeExpression : Tracks o wholeExpression fun _ => True :=
  tracks_get.bind fun _ _ => tracks_expression (tracks_factor _)

/-! ### Statements and programs -/

lemma tracks_printItem : Tracks o printItem fun _ => True :=
  tracks_accept_bind (tracks_expect_bind fun _ => tracks_pure trivial) fun _ _ =>
    tracks_pure trivial

lemma tracks_nextItem : Tracks o nextItem fun _ => True :=
  tracks_accept_bind (tracks_pure trivial) fun _ _ =>
    tracks_printItem.bind fun _ _ => tracks_pure trivial

lemma tracks_assignmentTo (target : Token) : Tracks o (assignmentTo target) fun _ => True :=
  tracks_expect_bind fun _ => tracks_wholeExpression.bind fun _ _ => tracks_pure trivial

lemma tracks_printWith (keyword : Token) : Tracks o (printWith keyword) fun _ => True :=
  tracks_expect_bind fun _ => tracks_printItem.bind fun _ _ =>
    (tracks_collect tracks_nextItem).bind fun _ _ =>
      tracks_expect_bind fun _ => tracks_pure trivial

lemma tracks_readWith (keyword : Token) : Tracks o (readWith keyword) fun _ => True :=
  tracks_expect_bind fun _ => tracks_expect_bind fun _ =>
    tracks_expect_bind fun _ => tracks_pure trivial

lemma tracks_statement : Tracks o statement fun _ => True := by
  refine tracks_accept_bind ?_ fun target _ => tracks_assignmentTo target
  refine tracks_accept_bind ?_ fun keyword _ => tracks_printWith keyword
  exact tracks_accept_bind (tracks_fail _) fun keyword _ => tracks_readWith keyword

lemma tracks_separator : Tracks o separator fun _ => True := by
  refine tracks_accept_bind ?_ fun _ _ => tracks_pure trivial
  refine tracks_current.bind fun token _ => ?_
  split
  · exact tracks_pure trivial
  · exact tracks_fail _

lemma tracks_nextStatement : Tracks o nextStatement fun _ => True := by
  refine tracks_current.bind fun token _ => ?_
  split
  · exact tracks_pure trivial
  · exact tracks_statement.bind fun _ _ => tracks_separator.bind fun _ _ => tracks_pure trivial

lemma tracks_program : Tracks o program fun _ => True := by
  refine tracks_expect_bind fun _ => tracks_expect_bind fun _ => tracks_expect_bind fun _ =>
    tracks_expect_bind fun _ => ?_
  refine (tracks_collect tracks_nextStatement).bind fun _ _ => ?_
  exact tracks_expect_bind fun _ => tracks_expect_bind fun _ => tracks_expect_bind fun _ =>
    tracks_pure trivial

end Parse

/-! ### Whole texts -/

/-- A text that has a tree has tokens. -/
lemma exists_tokenize_of_parse {source : String} {tree : Program} (h : parse source = .ok tree) :
    ∃ n ts, tokenize source = .ok ts ∧ DerivesProgram n ts tree := by
  obtain ⟨n, ts, p, q, ho, hm, hd, -⟩ := exists_derives_of_parse h
  exact ⟨n, ts, hm.tokenize_eq ho hd.endsOnce, hd⟩

/-- What stands in the way of a tree is a reading of the text up to its first fault: a token that
does not fit, or the fault. -/
lemma exists_reading_of_parse_error {source : String} {e : ParseError}
    (h : parse source = .error e) :
    ∃ r ∈ Reading.untilFault (Cursor.ofSource source).readings,
      match e with
      | .grammar g => r.outcome = .ok g.token
      | .lexical l => r.outcome = .error l := by
  rcases parse_error_cases h with ⟨l, hl, rfl⟩ | ⟨p, q, hs, hp⟩
  · exact ⟨_, (Cursor.ofSource source).nextToken_mem_untilFault, hl⟩
  · obtain ⟨ho, -⟩ := Parser.start_eq_ok hs
    have htracked := Parse.tracks_program p (.refl p)
    rw [hp] at htracked
    cases e with
    | grammar g => exact htracked.exists_reading ho
    | lexical l => exact htracked.exists_reading ho

end Barnamaj
