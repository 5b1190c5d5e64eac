import Barnamaj.Proofs.Code.Totality
import Barnamaj.Proofs.Parser.Readings
import Barnamaj.Proofs.Symbol.Declared
import Barnamaj.Proofs.Symbol.Uses

/-!
# What a compilation comes to

A text that can be parsed has code exactly if all names that it uses are declared; otherwise the
first of the others is reported. Any other text is reported with its first fault. No stage fails in
another way, and every report is placed at a token of the text or at a lexeme that cannot be read.
-/

namespace Barnamaj

variable {source : String} {d : Declarations} {p : Program} {n : Nat} {ts : List Token}

/-! ### Results -/

namespace Compilation

variable {c : Compilation}

lemma of_ok {code : List Instruction} (h : c.outcome = .ok code) :
    c.succeeded = true ∧ c.instructions = code ∧ c.listing? = some (Instruction.listing code) ∧
      c.diagnostic? = none ∧ c.errors = [] := by
  obtain ⟨outcome, clashes, events⟩ := c
  cases h
  exact ⟨rfl, rfl, rfl, rfl, rfl⟩

lemma of_diagnosed {d : Diagnostic} (h : c.outcome = .error (.diagnosed d)) :
    c.succeeded = false ∧ c.instructions = [] ∧ c.listing? = none ∧ c.diagnostic? = some d ∧
      c.errors = [d.message] := by
  obtain ⟨outcome, clashes, events⟩ := c
  cases h
  exact ⟨rfl, rfl, rfl, rfl, rfl⟩

end Compilation

/-! ### Programs -/

/-- Whether the name of a token has no declaration. -/
def Declarations.lacks (d : Declarations) (t : Token) : Bool := t.lexeme ∉ d.keys

/-- A name of a text is declared exactly by a declaration, as no built-in type has this name. -/
lemma declares_eq (hts : tokenize source = .ok ts) {t : Token} (ht : t ∈ ts)
    (hk : t.kind = .identifier) : (!(declareGlobally d).1.declares t.lexeme) = d.lacks t := by
  have hformed := Cursor.formed_of_tokenize hts t ht (by simp [hk])
  have hbuiltin := hformed.notMem_builtin hk
  have hiff : (declareGlobally d).1.declares t.lexeme = true ↔ t.lexeme ∈ d.keys := by
    rw [declareGlobally, Declarations.declares_declareAll, Environment.declares_initial]
    exact or_iff_right hbuiltin
  by_cases h : t.lexeme ∈ d.keys
  · simp [Declarations.lacks, h, hiff.mpr h]
  · have hfalse := mt hiff.mp h
    simp [Declarations.lacks, h, hfalse]

/-- What becomes of a text that has been parsed depends only on the first name in it that has no
declaration. -/
lemma outcome_of_parse (path : String) (h : parse source = .ok p)
    (hts : tokenize source = .ok ts) (hd : DerivesProgram n ts p) :
    ∃ code, (compile path d source).outcome =
      match p.uses.find? fun u => d.lacks u.token with
      | none => .ok (code ++ [{ op := .halt }])
      | some u => .error (.diagnosed u.fault.diagnostic) := by
  obtain ⟨code, hcode⟩ := hd.exists_code
  obtain ⟨hnames, hwithin⟩ := hd.enclosed_eq
  have hcheck : (p.uses.find? fun u => !(declareGlobally d).1.declares u.token.lexeme) =
      p.uses.find? fun u => d.lacks u.token := by
    rw [← List.head?_filter, ← List.head?_filter]
    refine congrArg List.head? (List.filter_congr fun u hu => ?_)
    have hmem : u.token ∈ (enclosed ts).filter Token.isName := hnames ▸ List.mem_map_of_mem hu
    obtain ⟨ht, hk⟩ := List.mem_filter.mp hmem
    exact declares_eq hts (hwithin.subset ht) (by simpa [Token.isName] using hk)
  refine ⟨code, ?_⟩
  simp only [compile, h, compileTree, checkNames, analyze_program, NameUse.firstFault, hcheck]
  cases p.uses.find? fun u => d.lacks u.token with
  | none => simp only [Except.map, hcode]
  | some u => rfl

/-- The first token of the body that is a name without a declaration belongs to the first use of
such a name. -/
lemma find?_enclosed (hd : DerivesProgram n ts p) :
    (enclosed ts).find? (fun t => decide (t.isName ∧ d.lacks t)) =
      (p.uses.find? fun u => d.lacks u.token).map NameUse.token := by
  rw [← List.find?_filter, hd.enclosed_eq.1, List.find?_map]
  rfl

lemma forall_mem_keys_of_find?_eq_none (hd : DerivesProgram n ts p)
    (hu : (p.uses.find? fun u => d.lacks u.token) = none) :
    ∀ t ∈ enclosed ts, t.kind = .identifier → t.lexeme ∈ d.keys := by
  have hfind := find?_enclosed (d := d) hd
  rw [hu, Option.map_none, List.find?_eq_none] at hfind
  intro t ht hk
  simpa [Token.isName, Declarations.lacks, hk] using hfind t ht

lemma exists_split_of_find?_eq_some (hd : DerivesProgram n ts p) {u : NameUse}
    (hu : (p.uses.find? fun u => d.lacks u.token) = some u) :
    ∃ us vs, enclosed ts = us ++ u.token :: vs ∧
      (∀ t ∈ us, t.kind = .identifier → t.lexeme ∈ d.keys) ∧
      u.token.kind = .identifier ∧ u.token.lexeme ∉ d.keys := by
  have hfind := find?_enclosed (d := d) hd
  rw [hu, Option.map_some, List.find?_eq_some_iff_append] at hfind
  obtain ⟨hu', us, vs, hsplit, hus⟩ := hfind
  refine ⟨us, vs, hsplit, fun t ht hk => ?_, ?_⟩
  · simpa [Token.isName, Declarations.lacks, hk] using hus t ht
  · simpa [Token.isName, Declarations.lacks] using hu'

/-- No token is used twice, because none occurs twice in a text. -/
lemma nodup_token_uses (hts : tokenize source = .ok ts) (hd : DerivesProgram n ts p) :
    (p.uses.map NameUse.token).Nodup := by
  obtain ⟨hnames, hwithin⟩ := hd.enclosed_eq
  have hnodup := Cursor.nodup_of_tokenize (Cursor.behind_ofSource source) hts
  rw [← hnames]
  exact (hnodup.sublist hwithin.sublist).filter _

/-- The report of a use of a name that is not declared. -/
lemma NameUse.diagnostic_fault (u : NameUse) :
    u.fault.diagnostic = .located .semantic
      (if u.reading then "Variable '" ++ u.token.lexeme ++ "' not declared for reading."
        else "Variable '" ++ u.token.lexeme ++ "' not declared.") u.token.position := by
  rw [NameUse.fault]
  split <;> rfl

/-- A text that can be parsed is compiled exactly if every name between its braces is declared.
Otherwise the first of the others is reported at its place, with a text of its own if it is the
target of a read statement. The names of the built-in types, which are declared from the start, do
not count, because no name of a text is one of them. -/
theorem compile_succeeds_iff_names_declared (h : parse source = .ok p) (path : String)
    (d₁ d₂ : Declarations) :
    ∃ ts, tokenize source = .ok ts ∧
      ((compile path (d₁.update d₂) source).succeeded = true ↔
        ∀ t ∈ enclosed ts, t.kind = .identifier → t.lexeme ∈ (d₁.update d₂).keys) ∧
      ((compile path (d₁.update d₂) source).succeeded = false →
        ∃ us t vs, enclosed ts = us ++ t :: vs ∧
          (∀ u ∈ us, u.kind = .identifier → u.lexeme ∈ (d₁.update d₂).keys) ∧
          t.kind = .identifier ∧ t.lexeme ∉ (d₁.update d₂).keys ∧
          ((∃ keyword, .read keyword t ∈ p.statements) →
            (compile path (d₁.update d₂) source).diagnostic? = some (.located .semantic
              ("Variable '" ++ t.lexeme ++ "' not declared for reading.") t.position)) ∧
          ((¬ ∃ keyword, .read keyword t ∈ p.statements) →
            (compile path (d₁.update d₂) source).diagnostic? = some (.located .semantic
              ("Variable '" ++ t.lexeme ++ "' not declared.") t.position))) ∧
      ∀ t ∈ ts, t.kind = .identifier → t.lexeme ∉ DataType.builtin.map Prod.fst := by
  obtain ⟨n, ts, hts, hd⟩ := exists_tokenize_of_parse h
  have hbuiltin : ∀ t ∈ ts, t.kind = .identifier → t.lexeme ∉ DataType.builtin.map Prod.fst :=
    fun t ht hk => (Cursor.formed_of_tokenize hts t ht (by simp [hk])).notMem_builtin hk
  obtain ⟨code, hout⟩ := outcome_of_parse (d := d₁.update d₂) path h hts hd
  refine ⟨ts, hts, ?_⟩
  cases hu : p.uses.find? fun u => (d₁.update d₂).lacks u.token with
  | none =>
    rw [hu] at hout
    obtain ⟨hok, -⟩ := Compilation.of_ok hout
    refine ⟨⟨fun _ => forall_mem_keys_of_find?_eq_none hd hu, fun _ => hok⟩, fun hfail => ?_,
      hbuiltin⟩
    rw [hok] at hfail
    cases hfail
  | some u =>
    rw [hu] at hout
    obtain ⟨us, vs, hsplit, hus, hk, hlacks⟩ := exists_split_of_find?_eq_some hd hu
    obtain ⟨hfail, -, -, hdiag, -⟩ := Compilation.of_diagnosed hout
    -- the token of the use tells whether a value is read into it
    have hreading := Program.reading_iff (List.mem_of_find?_eq_some hu) (nodup_token_uses hts hd)
    refine ⟨⟨fun hok => ?_, fun hall => ?_⟩, fun _ => ?_, hbuiltin⟩
    · rw [hfail] at hok
      cases hok
    · exact absurd (hall u.token (by simp [hsplit]) hk) hlacks
    · refine ⟨us, u.token, vs, hsplit, hus, hk, hlacks, fun hread => ?_, fun hread => ?_⟩
      · rw [hdiag, NameUse.diagnostic_fault, if_pos (hreading.mpr hread)]
      · rw [hdiag, NameUse.diagnostic_fault, if_neg (fun hr => hread (hreading.mp hr))]

theorem undeclared_read_target_reported :
    (compile "" (Declarations.update [("س", .integer)] [("ع", .real)])
      "برنامج س ; \x7b س = ع ; اقرأ ( ل ) \x7d .").diagnostic? =
        some (.located .semantic "Variable 'ل' not declared for reading." ⟨1, 29⟩) ∧
    ∃ ts us t vs, tokenize "برنامج س ; \x7b س = ع ; اقرأ ( ل ) \x7d ." = .ok ts ∧
      enclosed ts = us ++ t :: vs ∧ (∀ u ∈ us, u.kind = .identifier → u.lexeme ∈ ["س", "ع"]) ∧
      t.kind = .identifier ∧ t.lexeme ∉ ["س", "ع"] := by
  have h : parse "برنامج س ; \x7b س = ع ; اقرأ ( ل ) \x7d ." = .ok
      { position := ⟨1, 1⟩, name := "س", bodyPosition := ⟨1, 12⟩,
        statements := [.assignment ⟨.identifier, "س", .text "س", ⟨1, 14⟩⟩
            (.access ⟨.identifier, "ع", .text "ع", ⟨1, 18⟩⟩),
          .read ⟨.readKw, "اقرأ", .absent, ⟨1, 22⟩⟩ ⟨.identifier, "ل", .text "ل", ⟨1, 29⟩⟩] } := by
    decide +kernel
  obtain ⟨ts, hts, -, hfail, -⟩ :=
    compile_succeeds_iff_names_declared h "" [("س", .integer)] [("ع", .real)]
  obtain ⟨us, t, vs, hsplit, hus, hk, hlacks, -⟩ := hfail (by decide +kernel)
  exact ⟨by decide +kernel, ts, us, t, vs, hts, hsplit, hus, hk, hlacks⟩

/-! ### All texts -/

/-- The report is one of the reading: of the fault that was read, or of the token. -/
def Diagnostic.Concerns (r : Reading) (d : Diagnostic) : Prop :=
  match r.outcome with
  | .error e => d = .located .lexical e.fault.text e.position
  | .ok t => (∃ text expected, d = .located (.parsing t expected) text t.position) ∨
    ∃ text ∈ ["Variable '" ++ t.lexeme ++ "' not declared.",
      "Variable '" ++ t.lexeme ++ "' not declared for reading."],
      d = .located .semantic text t.position

lemma Diagnostic.Concerns.place {r : Reading} {d : Diagnostic} {before rest : List Char}
    (h : d.Concerns r) (hr : r.MadeAt before rest) :
    d.line = some (Position.after before).line ∧ d.column = some (Position.after before).column := by
  have houtcome := hr.outcome
  cases ho : r.outcome with
  | error e =>
    simp only [Concerns, ho] at h houtcome
    rw [h, ← houtcome.2]
    exact ⟨rfl, rfl⟩
  | ok t =>
    simp only [Concerns, ho] at h houtcome
    rw [← houtcome.2]
    rcases h with ⟨text, expected, rfl⟩ | ⟨text, -, rfl⟩ <;> exact ⟨rfl, rfl⟩

/-- A compilation ends with code or with the report of a reading of the text. -/
lemma outcome_cases (path : String) (d : Declarations) (source : String) :
    (∃ code, (compile path d source).outcome = .ok (code ++ [{ op := .halt }])) ∨
      ∃ diagnostic, (compile path d source).outcome = .error (.diagnosed diagnostic) ∧
        ∃ r ∈ Reading.untilFault (Cursor.ofSource source).readings, diagnostic.Concerns r := by
  cases hp : parse source with
  | error e =>
    obtain ⟨r, hr, ho⟩ := exists_reading_of_parse_error hp
    refine Or.inr ⟨e.diagnostic, by simp only [compile, hp], r, hr, ?_⟩
    cases e with
    | lexical l =>
      simp only [Diagnostic.Concerns, ho]
      rfl
    | grammar g =>
      simp only [Diagnostic.Concerns, ho]
      exact Or.inl ⟨g.text, g.expected, rfl⟩
  | ok p =>
    obtain ⟨n, ts, hts, hd⟩ := exists_tokenize_of_parse hp
    obtain ⟨code, hout⟩ := outcome_of_parse (d := d) path hp hts hd
    cases hu : p.uses.find? fun u => d.lacks u.token with
    | none =>
      rw [hu] at hout
      exact Or.inl ⟨code, hout⟩
    | some u =>
      rw [hu] at hout
      obtain ⟨us, vs, hsplit, -⟩ := exists_split_of_find?_eq_some hd hu
      have hmem : u.token ∈ ts := hd.enclosed_eq.2.subset (by simp [hsplit])
      obtain ⟨r, hr, ho⟩ := Reading.exists_mem_untilFault_of_tokens hts u.token hmem
      refine Or.inr ⟨u.fault.diagnostic, hout, r, hr, ?_⟩
      simp only [Diagnostic.Concerns, ho]
      refine Or.inr ⟨_, ?_, u.diagnostic_fault⟩
      split <;> simp

/-- Every compilation succeeds or reports exactly one fault. If it succeeds, there is code, which
ends the run, with its listing, and nothing is reported. If it fails, there is neither code nor a
listing, and the one report is a lexical error, a grammar error or an undeclared name. The report
is placed where a token of the text starts, which may be the end token, or where the lexeme starts
that cannot be read. -/
theorem compile_code_or_located_diagnostic (path : String) (d : Declarations) (source : String) :
    (∃ code, (compile path d source).succeeded = true ∧
      (compile path d source).instructions = code ++ [{ op := .halt }] ∧
      (compile path d source).listing? =
        some (Instruction.listing (compile path d source).instructions) ∧
      (compile path d source).diagnostic? = none ∧ (compile path d source).errors = []) ∨
    (∃ diagnostic r before rest, (compile path d source).succeeded = false ∧
      (compile path d source).instructions = [] ∧ (compile path d source).listing? = none ∧
      (compile path d source).diagnostic? = some diagnostic ∧
      (compile path d source).errors = [diagnostic.message] ∧
      diagnostic.Concerns r ∧ r ∈ Reading.untilFault (Cursor.ofSource source).readings ∧
      source.toList = before ++ rest ∧ r.MadeAt before rest ∧
      diagnostic.line = some (Position.after before).line ∧
      diagnostic.column = some (Position.after before).column) := by
  rcases outcome_cases path d source with ⟨code, hout⟩ | ⟨diagnostic, hout, r, hr, hconcerns⟩
  · obtain ⟨hsucceeded, hcode, hlisting, hnone, herrors⟩ := Compilation.of_ok hout
    exact Or.inl ⟨code, hsucceeded, hcode, hcode ▸ hlisting, hnone, herrors⟩
  · obtain ⟨hfailed, hcode, hlisting, hdiagnostic, herrors⟩ := Compilation.of_diagnosed hout
    have hmem : r ∈ (Cursor.ofSource source).readings := Reading.untilFault_subset _ hr
    have hplace := (Cursor.behind_ofSource source).of_mem_readings hmem
    obtain ⟨before, rest, htext, hmade⟩ := hplace
    rw [List.nil_append] at hmade
    obtain ⟨hline, hcolumn⟩ := hconcerns.place hmade
    exact Or.inr ⟨diagnostic, r, before, rest, hfailed, hcode, hlisting, hdiagnostic, herrors,
      hconcerns, hr, htext, hmade, hline, hcolumn⟩

end Barnamaj
