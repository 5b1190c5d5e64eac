import Barnamaj.Proofs.Parser.Acceptance
import Barnamaj.Proofs.Parser.Guidance

/-!
# Where a fault is reported

A text that does not fit the grammar is refused at the first token that no program goes on with:
the tokens in front of it start some program, and with it they start none.
-/

namespace Barnamaj

/-- The tokens that a parser takes and the one it then looks at are the first readings of the
text. -/
lemma Parser.Moves.prefix_readings {c : Cursor} {p q : Parser} {ts : List Token}
    (h : p.Moves ts q) (hp : Opens c p) (hts : ∀ t ∈ ts, t.kind ≠ .eof) :
    (ts ++ [q.current]).map Except.ok <+: c.readings.map Reading.outcome := by
  induction h generalizing c with
  | refl p =>
    obtain ⟨ho, -⟩ := hp
    by_cases hk : p.current.kind = .eof
    · simp [Cursor.readings_of_eof ho hk, ho]
    · simp [Cursor.readings_of_ne_eof ho hk, ho]
  | @step p q r ts ha _ ih =>
    obtain ⟨hk, hts⟩ := List.forall_mem_cons.mp hts
    have htail := ih (opens_of_advance ha) hts
    obtain ⟨ho, hn⟩ := hp
    rw [Cursor.readings_of_ne_eof ho hk, hn]
    simpa [ho] using htail

/-- A grammar error of a text is an error of its parser. -/
lemma parse_eq_error {source : String} {e : GrammarError} (h : parse source = .error (.grammar e)) :
    ∃ p q, Parser.start (.ofSource source) = .ok p ∧
      Parse.program p = .error (.grammar e) q := by
  rcases parse_error_cases h with ⟨l, -, hl⟩ | hp
  · cases hl
  · exact hp

lemma misfit_of_text_ne {e : GrammarError} (h : e.text ≠ "Expression nested too deeply") :
    Parse.Misfit e := by
  intro hf
  have hf' : e.fault = .nestedTooDeeply ∨ e.fault = .tooHigh := by simpa using hf
  rcases hf' with hf | hf
  · exact h (by simp [GrammarError.text, hf])
  · exact h (by simp [GrammarError.text, hf])

/-- Unless a limit is exceeded, a grammar error is reported at the first token with which the text
stops being the start of a program: the tokens in front of it start one, and together with it they
start none. The report is placed at this token. -/
theorem grammar_error_at_first_unviable_token {source : String} {e : GrammarError}
    (h : parse source = .error (.grammar e)) (he : e.text ≠ "Expression nested too deeply") :
    ∃ ts : List Token,
      (ts ++ [e.token]).map Except.ok <+: (Cursor.ofSource source).readings.map Reading.outcome ∧
      (∃ us n tree, DerivesProgram n (ts ++ us) tree) ∧
      (∀ us n tree, ¬ DerivesProgram n (ts ++ e.token :: us) tree) ∧
      (ParseError.grammar e).diagnostic.line = some e.token.position.line ∧
      (ParseError.grammar e).diagnostic.column = some e.token.position.column := by
  obtain ⟨p, q, hs, hp⟩ := parse_eq_error h
  obtain ⟨ho, -⟩ := Parser.start_eq_ok hs
  obtain ⟨ts, hm, htok, hviable, hstuck⟩ := Parse.follows_program.error hp (misfit_of_text_ne he)
  obtain ⟨t, us, hw⟩ := hviable exists_mem_programWords
  obtain ⟨n, tree, hd⟩ := mem_programWords_iff.mp hw
  refine ⟨ts, ?_, ⟨t :: us, n, tree, hd⟩, fun us n tree hd => ?_, rfl, rfl⟩
  · rw [htok]
    exact hm.prefix_readings ho hd.endsOnce.kind_ne_eof
  · rw [htok] at hd
    apply hstuck us
    rw [mul_one]
    exact mem_programWords_iff.mpr ⟨n, tree, hd⟩

theorem unexpected_closing_parenthesis_unviable :
    parse "برنامج س ; \x7b س = ) \x7d ." =
      .error (.grammar ⟨.noFactor, ⟨.rparen, ")", .absent, ⟨1, 18⟩⟩⟩) ∧
    ∃ ts : List Token,
      (ts ++ [(⟨.rparen, ")", .absent, ⟨1, 18⟩⟩ : Token)]).map Except.ok <+:
        (Cursor.ofSource "برنامج س ; \x7b س = ) \x7d .").readings.map Reading.outcome ∧
      (∃ us n tree, DerivesProgram n (ts ++ us) tree) ∧
      ∀ us n tree, ¬ DerivesProgram n (ts ++ ⟨.rparen, ")", .absent, ⟨1, 18⟩⟩ :: us) tree := by
  have h : parse "برنامج س ; \x7b س = ) \x7d ." =
      .error (.grammar ⟨.noFactor, ⟨.rparen, ")", .absent, ⟨1, 18⟩⟩⟩) := by
    decide +kernel
  obtain ⟨ts, hread, hviable, hstuck, -⟩ := grammar_error_at_first_unviable_token h (by decide)
  exact ⟨h, ts, hread, hviable, hstuck⟩

end Barnamaj
