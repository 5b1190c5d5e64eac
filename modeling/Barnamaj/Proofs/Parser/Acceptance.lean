import Barnamaj.Proofs.Parser.Completeness
import Barnamaj.Proofs.Parser.Soundness
import Barnamaj.Proofs.Token.Tokenize

/-!
# What is accepted

A source text that can be read as tokens is parsed to a tree exactly if its tokens derive the tree
within the limits. If they derive a tree beyond the limits, the text is refused for that reason.
-/

namespace Barnamaj

/-! ### Parsers and tokens -/

namespace Parser

variable {c : Cursor} {p q : Parser} {ts : List Token}

/-- The parser looks at the first token behind the cursor. -/
def Opens (c : Cursor) (p : Parser) : Prop :=
  c.nextToken.outcome = .ok p.current ∧ c.nextToken.next = p.source

lemma start_of_ok {t : Token} (h : c.nextToken.outcome = .ok t) :
    start c = .ok { current := t, source := c.nextToken.next } := by
  have hread : Supply.read c = .ok t := h
  rw [start, ofSupply, hread]
  rfl

lemma start_eq_ok (h : start c = .ok p) : Opens c p ∧ p.depth = 0 := by
  cases ho : c.nextToken.outcome with
  | error e =>
    have hread : Supply.read c = .error e := ho
    rw [start, ofSupply, hread] at h
    cases h
  | ok t =>
    rw [start_of_ok ho] at h
    cases h
    exact ⟨⟨ho, rfl⟩, rfl⟩

lemma advance_of_ok {t : Token} (h : p.source.nextToken.outcome = .ok t) :
    Parse.advance p = .ok () { p with current := t, source := p.source.nextToken.next } :=
  Parse.advance_of_read h

lemma opens_of_advance (h : Parse.advance p = .ok () q) : Opens p.source q := by
  cases ho : p.source.nextToken.outcome with
  | ok t =>
    rw [advance_of_ok ho] at h
    cases h
    exact ⟨ho, rfl⟩
  | error e =>
    rw [Parse.advance_of_fault ho] at h
    cases h

/-- A parser can take all tokens of the text, the end token included. -/
lemma moves_of_tokenize (h : c.tokenize = .ok ts) (hp : Opens c p) : ∃ q, p.Moves ts q := by
  induction ts generalizing c p with
  | nil =>
    obtain ⟨t, us, heq, -⟩ := Cursor.tokenize_eq_ok h
    cases heq
  | cons t ts ih =>
    obtain ⟨_, _, heq, ht, ⟨hk, hus⟩ | ⟨hk, hus⟩⟩ := Cursor.tokenize_eq_ok h
    · cases heq
      obtain ⟨ho, hn⟩ := hp
      rw [ht] at ho
      cases ho
      -- behind the end there is the end again
      have hend : p.source.rest.dropWhile Text.isBlank = [] := by
        rw [← hn, Cursor.rest_nextToken_of_eof ht hk]
        rfl
      obtain ⟨t', ht', -⟩ := Cursor.nextToken_of_end hend
      subst hus
      exact ⟨_, .single (advance_of_ok ht')⟩
    · cases heq
      obtain ⟨ho, hn⟩ := hp
      rw [ht] at ho
      cases ho
      obtain ⟨t', us, -, ht', -⟩ := Cursor.tokenize_eq_ok hus
      rw [hn] at ht' hus
      have ha := advance_of_ok ht'
      obtain ⟨q, hq⟩ := ih hus (opens_of_advance ha)
      exact ⟨q, .step ha hq⟩

/-- Every token that a parser takes was read from the text. -/
lemma Moves.formed (h : p.Moves ts q) (hp : Opens c p) :
    ∀ t ∈ ts, t.kind ≠ .eof → t.toLexeme.Formed := by
  induction h generalizing c with
  | refl p => simp
  | step ha _ ih =>
    rw [List.forall_mem_cons]
    exact ⟨Cursor.formed_of_nextToken hp.1, ih (opens_of_advance ha)⟩

/-- The tokens of a text are those that a parser takes to derive a program from them. -/
lemma Moves.eq_of_tokenize {n : Nat} {us : List Token} {tree : Program}
    (hm : p.Moves us q) (hd : DerivesProgram n us tree) (h : c.tokenize = .ok ts)
    (hp : Opens c p) : us = ts := by
  obtain ⟨r, hr⟩ := moves_of_tokenize h hp
  have hts := Cursor.endsOnce_of_tokenize h
  rcases hm.prefix_or_prefix hr with hpre | hpre
  · exact hd.endsOnce.eq_of_prefix hts hpre
  · exact (hts.eq_of_prefix hd.endsOnce hpre).symm

end Parser

/-! ### Whole texts -/

/-- The program that a text stands for, as a parser at its first token finds it. -/
lemma parse_of_opens {source : String} {p : Parser}
    (h : Parser.start (.ofSource source) = .ok p) :
    parse source = match Parse.program p with
      | .ok tree _ => .ok tree
      | .error e _ => .error e := by
  rw [Parser.start] at h
  cases hp : Parse.program p with
  | ok tree q => simp only [parse, parseFrom, h, hp]
  | error e q => simp only [parse, parseFrom, h, hp]

lemma parse_eq_ok {source : String} {tree : Program} (h : parse source = .ok tree) :
    ∃ p q, Parser.start (.ofSource source) = .ok p ∧ Parse.program p = .ok tree q := by
  cases hs : Parser.start (.ofSource source) with
  | error e =>
    rw [Parser.start] at hs
    rw [parse, parseFrom, hs] at h
    cases h
  | ok p =>
    rw [parse_of_opens hs] at h
    cases hp : Parse.program p with
    | ok tree' q =>
      rw [hp] at h
      cases h
      exact ⟨p, q, rfl, hp⟩
    | error e q =>
      rw [hp] at h
      cases h

/-- A fault of a text is one of its first token, or one that its parser finds. -/
lemma parse_error_cases {source : String} {e : ParseError} (h : parse source = .error e) :
    (∃ l, (Cursor.ofSource source).nextToken.outcome = .error l ∧ e = .lexical l) ∨
      ∃ p q, Parser.start (.ofSource source) = .ok p ∧ Parse.program p = .error e q := by
  cases ho : (Cursor.ofSource source).nextToken.outcome with
  | error l =>
    have hread : Supply.read (Cursor.ofSource source) = .error l := ho
    simp only [parse, parseFrom, Parser.ofSupply, hread] at h
    cases h
    exact Or.inl ⟨l, rfl, rfl⟩
  | ok t =>
    have hs := Parser.start_of_ok ho
    rw [parse_of_opens hs] at h
    split at h
    · cases h
    · next e' q hp =>
      cases h
      exact Or.inr ⟨_, q, hs, hp⟩

/-- The limits of a program: the nesting of its derivation and the heights of its expressions. -/
def WithinLimits (n : Nat) (tree : Program) : Prop :=
  n ≤ 100 ∧ ∀ e ∈ tree.expressions, e.height ≤ 250

/-- A tree that was parsed is derived within the limits from tokens of the text. -/
lemma exists_derives_of_parse {source : String} {tree : Program} (h : parse source = .ok tree) :
    ∃ n ts p q, Parser.Opens (.ofSource source) p ∧ p.Moves ts q ∧ DerivesProgram n ts tree ∧
      WithinLimits n tree := by
  obtain ⟨p, q, hs, hp⟩ := parse_eq_ok h
  obtain ⟨ho, hdepth⟩ := Parser.start_eq_ok hs
  obtain ⟨n, ts, hm, hd, hn, hh⟩ := Parse.program_eq_ok hp
  rw [hdepth] at hn
  exact ⟨n, ts, p, q, ho, hm, hd, hn, hh⟩

/-- The tokens of a program are parsed to its tree within the limits, and refused beyond them. -/
lemma parse_of_derives {source : String} {ts : List Token} {n : Nat} {tree : Program}
    (h : tokenize source = .ok ts) (hd : DerivesProgram n ts tree) :
    (WithinLimits n tree → parse source = .ok tree) ∧
      (¬ WithinLimits n tree → ∃ e, parse source = .error (.grammar e) ∧
        e.text = "Expression nested too deeply") := by
  obtain ⟨t, us, -, ht, -⟩ := Cursor.tokenize_eq_ok h
  have hs := Parser.start_of_ok ht
  obtain ⟨ho, hdepth⟩ := Parser.start_eq_ok hs
  obtain ⟨q, hm⟩ := Parser.moves_of_tokenize h ho
  obtain ⟨hok, hover⟩ := Parse.limited_program hd hm
  rw [parse_of_opens hs]
  refine ⟨fun hl => by rw [hok hl], fun hl => ?_⟩
  obtain ⟨fault, t, q, hf, he⟩ := hover hl
  refine ⟨⟨fault, t⟩, by rw [he], ?_⟩
  have hf' : fault = .nestedTooDeeply ∨ fault = .tooHigh := by simpa using hf
  rcases hf' with rfl | rfl
  · rfl
  · rfl

/-- A text that can be read as tokens is parsed to a tree exactly if the tokens derive the tree
within the limits: at most a hundred `(` and `!` are open at once, and no expression is higher than
two hundred and fifty nodes. Tokens that derive a tree beyond the limits are refused as nested too
deeply. -/
theorem parse_eq_ok_iff_derives_within_limits {source : String} {ts : List Token}
    (h : tokenize source = .ok ts) :
    (∀ tree, parse source = .ok tree ↔ ∃ n, DerivesProgram n ts tree ∧
      n ≤ 100 ∧ ∀ e ∈ tree.expressions, e.height ≤ 250) ∧
    (∀ n tree, DerivesProgram n ts tree →
      ¬ (n ≤ 100 ∧ ∀ e ∈ tree.expressions, e.height ≤ 250) →
      ∃ e, parse source = .error (.grammar e) ∧ e.text = "Expression nested too deeply") := by
  refine ⟨fun tree => ⟨fun hp => ?_, ?_⟩, fun n tree hd => (parse_of_derives h hd).2⟩
  · obtain ⟨n, us, p, q, ho, hm, hd, hl⟩ := exists_derives_of_parse hp
    rw [hm.eq_of_tokenize hd h ho] at hd
    exact ⟨n, hd, hl⟩
  · rintro ⟨n, hd, hl⟩
    exact (parse_of_derives h hd).1 hl

theorem parse_signed_group : parse "برنامج س ; \x7b س = - ( 1 ) ; \x7d ." = .ok
    { position := ⟨1, 1⟩, name := "س", bodyPosition := ⟨1, 12⟩,
      statements := [.assignment ⟨.identifier, "س", .text "س", ⟨1, 14⟩⟩
        (.unary ⟨.minus, "-", .absent, ⟨1, 18⟩⟩
          (.literal ⟨.integerLiteral, "1", .int 1, ⟨1, 22⟩⟩))] } := by
  have h : tokenize "برنامج س ; \x7b س = - ( 1 ) ; \x7d ." = .ok
      [⟨.programKw, "برنامج", .absent, ⟨1, 1⟩⟩, ⟨.identifier, "س", .text "س", ⟨1, 8⟩⟩,
        ⟨.semicolon, ";", .absent, ⟨1, 10⟩⟩, ⟨.lbrace, "\x7b", .absent, ⟨1, 12⟩⟩,
        ⟨.identifier, "س", .text "س", ⟨1, 14⟩⟩, ⟨.assign, "=", .absent, ⟨1, 16⟩⟩,
        ⟨.minus, "-", .absent, ⟨1, 18⟩⟩, ⟨.lparen, "(", .absent, ⟨1, 20⟩⟩,
        ⟨.integerLiteral, "1", .int 1, ⟨1, 22⟩⟩, ⟨.rparen, ")", .absent, ⟨1, 24⟩⟩,
        ⟨.semicolon, ";", .absent, ⟨1, 26⟩⟩, ⟨.rbrace, "\x7d", .absent, ⟨1, 28⟩⟩,
        ⟨.dot, ".", .absent, ⟨1, 30⟩⟩, ⟨.eof, "EOF", .absent, ⟨1, 31⟩⟩] := by
    decide +kernel
  have hone : Derives .expression 0 [⟨.integerLiteral, "1", .int 1, ⟨1, 22⟩⟩]
      (.literal ⟨.integerLiteral, "1", .int 1, ⟨1, 22⟩⟩) :=
    .ofSimple (.ofTerm (.ofFactor (.literal (by decide))))
  have hgroup : Derives .factor 1 [⟨.lparen, "(", .absent, ⟨1, 20⟩⟩,
      ⟨.integerLiteral, "1", .int 1, ⟨1, 22⟩⟩, ⟨.rparen, ")", .absent, ⟨1, 24⟩⟩] _ :=
    .parens rfl hone rfl
  have hsigned : Derives .expression 1 (⟨.minus, "-", .absent, ⟨1, 18⟩⟩ :: _) _ :=
    .ofSimple (.sign (by decide) (.ofFactor hgroup))
  refine ((parse_eq_ok_iff_derives_within_limits h).1 _).mpr ⟨1, ?_, by decide, by decide⟩
  exact .mk rfl rfl rfl rfl (.cons (.assignment rfl rfl hsigned) rfl .nil) rfl rfl rfl

end Barnamaj
