import Barnamaj.Proofs.Compilation.Layout

/-!
# What declarations do to a compilation

A compilation depends on its declarations through the names that they declare, and on nothing else:
not on their types, not on their order, and not on the names of built-in types among them, which no
text can use. With more names declared, a text that is compiled is still compiled to the same code.
The built-in names among the declarations show in the warnings alone, one for each.
-/

namespace Barnamaj

variable {path path' source : String} {d e : Declarations} {p : Program}

/-! ### Clashes -/

/-- Of the variables that are declared one after the other, those clash whose names the scope had
before. -/
lemma Declarations.faults_declareAll {env : Environment} (h : d.keys.Nodup) :
    (declareAll env d).2.filterMap declarationFault? =
      (d.keys.filter env.scope.contains).map .duplicate := by
  induction d generalizing env with
  | nil => rfl
  | cons entry d ih =>
    obtain ⟨name, type⟩ := entry
    obtain ⟨hname, hrest⟩ := List.nodup_cons.mp h
    rw [keys_cons]
    by_cases hc : env.scope.contains name = true
    · simp only [declareAll, Environment.declare_of_contains hc]
      rw [List.filter_cons_of_pos hc, List.map_cons, ← ih hrest]
      rfl
    · obtain ⟨s, hd, -, hsymbols⟩ := Environment.declare_of_not_contains hc type
      -- no name comes twice, so the new one makes no difference to those that follow
      have hfilter : (keys d).filter s.contains = (keys d).filter env.scope.contains := by
        refine List.filter_congr fun x hx => ?_
        have hne : x ≠ name := ne_of_mem_of_not_mem hx hname
        rw [Bool.eq_iff_iff, Scope.contains_iff, Scope.contains_iff, hsymbols]
        simp [Environment.variableSymbol, hne]
      simp only [declareAll, hd]
      rw [List.filter_cons_of_neg hc, ← hfilter]
      exact ih hrest

/-- Each built-in name among the declarations gives a warning, in their order. -/
lemma warnings_eq (path : String) (hp : parse source = .ok p) (hd : d.keys.Nodup) :
    (compile path d source).warnings =
      (d.keys.filter (· ∈ DataType.builtin.map Prod.fst)).map fun name =>
        "Symbol '" ++ name ++ "' is already defined in this scope." := by
  have hglobal : ∀ name : String, Environment.initial.scope.contains name =
      decide (name ∈ DataType.builtin.map Prod.fst) := by
    intro name
    rw [Bool.eq_iff_iff, Scope.contains_iff, decide_eq_true_iff]
    simp [Environment.initial, Environment.globalScope]
  have hfilter := List.filter_congr (l := d.keys) fun name _ => hglobal name
  rw [warnings_of_parse path hp, declareGlobally, Declarations.faults_declareAll hd, hfilter,
    List.map_map]
  rfl

/-! ### Outcomes -/

lemma notMem_builtin_of_uses {n : Nat} {ts : List Token} (hts : tokenize source = .ok ts)
    (hd : DerivesProgram n ts p) :
    ∀ u ∈ p.uses, u.token.lexeme ∉ DataType.builtin.map Prod.fst := by
  intro u hu
  obtain ⟨hnames, hwithin⟩ := hd.enclosed_eq
  have hmem : u.token ∈ (enclosed ts).filter Token.isName := hnames ▸ List.mem_map_of_mem hu
  obtain ⟨ht, hname⟩ := List.mem_filter.mp hmem
  have hk : u.token.kind = .identifier := by simpa [Token.isName] using hname
  exact (Cursor.formed_of_tokenize hts _ (hwithin.subset ht) (by simp [hk])).notMem_builtin hk

/-- A text that has been parsed is compiled with the same outcome if the same use of a name is the
first one without a declaration. -/
lemma outcome_eq_of_find? (h : parse source = .ok p)
    (hfind : (p.uses.find? fun u => d.lacks u.token) = p.uses.find? fun u => e.lacks u.token) :
    (compile path d source).outcome = (compile path' e source).outcome := by
  obtain ⟨n, ts, hts, hd⟩ := exists_tokenize_of_parse h
  obtain ⟨code, hout⟩ := outcome_of_parse (d := d) path h hts hd
  obtain ⟨code', hout'⟩ := outcome_of_parse (d := e) path' h hts hd
  rw [← hfind] at hout'
  cases hu : p.uses.find? fun u => d.lacks u.token with
  | none =>
    rw [hu] at hout hout'
    obtain ⟨q, hq, hcode⟩ := compile_eq_ok hout
    obtain ⟨q', hq', hcode'⟩ := compile_eq_ok hout'
    obtain rfl : q = q' := Except.ok.inj (hq.symm.trans hq')
    have hsame := Except.ok.inj (hcode.symm.trans hcode')
    exact hout.trans ((congrArg Except.ok hsame).trans hout'.symm)
  | some u =>
    rw [hu] at hout hout'
    exact hout.trans hout'.symm

/-- Which names are declared decides the outcome, built-in ones aside. -/
lemma outcome_eq_of_keys
    (h : ∀ name ∉ DataType.builtin.map Prod.fst, name ∈ d.keys ↔ name ∈ e.keys) :
    (compile path d source).outcome = (compile path' e source).outcome := by
  cases hp : parse source with
  | error f => simp only [compile, hp]
  | ok p =>
    obtain ⟨n, ts, hts, hd⟩ := exists_tokenize_of_parse hp
    refine outcome_eq_of_find? hp ?_
    rw [← List.head?_filter, ← List.head?_filter]
    refine congrArg List.head? (List.filter_congr fun u hu => ?_)
    simp only [Declarations.lacks, h _ (notMem_builtin_of_uses hts hd u hu)]

/-- With more names declared, a text that is compiled keeps its outcome. -/
lemma outcome_eq_of_subset (h : d.keys ⊆ e.keys) (hok : (compile path d source).succeeded = true) :
    (compile path d source).outcome = (compile path' e source).outcome := by
  cases hp : parse source with
  | error f => simp only [compile, hp]
  | ok p =>
    obtain ⟨n, ts, hts, hd⟩ := exists_tokenize_of_parse hp
    obtain ⟨code, hout⟩ := outcome_of_parse (d := d) path hp hts hd
    have hnone : (p.uses.find? fun u => d.lacks u.token) = none := by
      by_contra hsome
      obtain ⟨u, hu⟩ := Option.ne_none_iff_exists'.mp hsome
      rw [hu] at hout
      rw [(Compilation.of_diagnosed hout).1] at hok
      cases hok
    have hdeclared := List.find?_eq_none.mp hnone
    refine outcome_eq_of_find? hp (hnone.trans (List.find?_eq_none.mpr fun u hu => ?_).symm)
    have hu' := hdeclared u hu
    simp only [Declarations.lacks, decide_eq_true_eq, not_not] at hu' ⊢
    exact h hu'

/-! ### The whole -/

/-- Compilations with the same code and listing, or with the same report. -/
structure Compilation.SameResult (c c' : Compilation) : Prop where
  succeeded : c.succeeded = c'.succeeded
  instructions : c.instructions = c'.instructions
  listing : c.listing? = c'.listing?
  diagnostic : c.diagnostic? = c'.diagnostic?

lemma Compilation.sameResult_of_outcome {c c' : Compilation} (h : c.outcome = c'.outcome) :
    c.SameResult c' := by
  refine ⟨?_, ?_, ?_, ?_⟩
  · rw [Compilation.succeeded, h, ← Compilation.succeeded]
  · rw [Compilation.instructions, h, ← Compilation.instructions]
  · rw [Compilation.listing?, h, ← Compilation.listing?]
  · rw [Compilation.diagnostic?, h, ← Compilation.diagnostic?]

/-- Declarations matter through their names. A first map of declarations is merged with a second
one, and a text is compiled. Any other two maps with the same names together, built-in names aside,
give the same result. If they have all these names and perhaps more, then what could be compiled can
be compiled, to the same code. The warnings are none if the text cannot be parsed. Otherwise, also
if a name turns out not to be declared, there is one for each built-in name: first those of the
first map in their order, then those that are new in the second. For this, neither map has a name
twice. -/
theorem declarations_matter_by_name (path path' source : String) (d₁ d₂ : Declarations) :
    (∀ e₁ e₂ : Declarations,
      (∀ name ∉ DataType.builtin.map Prod.fst,
        name ∈ (d₁.update d₂).keys ↔ name ∈ (e₁.update e₂).keys) →
      (compile path (d₁.update d₂) source).SameResult (compile path' (e₁.update e₂) source)) ∧
    (∀ e₁ e₂ : Declarations, (d₁.update d₂).keys ⊆ (e₁.update e₂).keys →
      (compile path (d₁.update d₂) source).succeeded = true →
      (compile path' (e₁.update e₂) source).succeeded = true ∧
        (compile path' (e₁.update e₂) source).instructions =
          (compile path (d₁.update d₂) source).instructions) ∧
    ((parse source).isOk = false → (compile path (d₁.update d₂) source).warnings = []) ∧
    ((parse source).isOk = true → d₁.keys.Nodup → d₂.keys.Nodup →
      (compile path (d₁.update d₂) source).warnings =
        ((d₁.keys ++ d₂.keys.filter (· ∉ d₁.keys)).filter
            (· ∈ DataType.builtin.map Prod.fst)).map fun name =>
          "Symbol '" ++ name ++ "' is already defined in this scope.") := by
  refine ⟨fun e₁ e₂ h => ?_, fun e₁ e₂ h hok => ?_, fun hp => ?_, fun hp hd₁ hd₂ => ?_⟩
  · exact Compilation.sameResult_of_outcome (outcome_eq_of_keys h)
  · have hout : (compile path (d₁.update d₂) source).outcome =
        (compile path' (e₁.update e₂) source).outcome := outcome_eq_of_subset h hok
    have hsame := Compilation.sameResult_of_outcome hout
    exact ⟨hsame.succeeded ▸ hok, hsame.instructions.symm⟩
  · cases h : parse source with
    | ok p => simp [h, Except.isOk, Except.toBool] at hp
    | error f => simp only [compile, h, Compilation.warnings, List.map_nil]
  · cases h : parse source with
    | error f => simp [h, Except.isOk, Except.toBool] at hp
    | ok p =>
      rw [warnings_eq path h (Declarations.nodup_keys_update hd₁ hd₂),
        Declarations.keys_update d₁ hd₂]

theorem builtin_declarations_only_warn :
    (compile "" (Declarations.update [("صحيح", .real), ("س", .integer)]
        [("حرفي", .char), ("صحيح", .list)]) "برنامج ب ; \x7b س = ع \x7d .").SameResult
      (compile "" (Declarations.update [] [("س", .string)]) "برنامج ب ; \x7b س = ع \x7d .") ∧
    (compile "" (Declarations.update [("صحيح", .real), ("س", .integer)]
        [("حرفي", .char), ("صحيح", .list)]) "برنامج ب ; \x7b س = ع \x7d .").warnings =
      ["Symbol 'صحيح' is already defined in this scope.",
        "Symbol 'حرفي' is already defined in this scope."] ∧
    (compile "" (Declarations.update [] [("س", .string)])
      "برنامج ب ; \x7b س = ع \x7d .").succeeded = false := by
  obtain ⟨hsame, -, -, hwarnings⟩ := declarations_matter_by_name "" ""
    "برنامج ب ; \x7b س = ع \x7d ." [("صحيح", .real), ("س", .integer)]
    [("حرفي", .char), ("صحيح", .list)]
  have hkeys : (Declarations.update [("صحيح", .real), ("س", .integer)]
      [("حرفي", .char), ("صحيح", .list)]).keys = ["صحيح", "س", "حرفي"] := by decide
  have hbuiltin : "صحيح" ∈ DataType.builtin.map Prod.fst ∧
      "حرفي" ∈ DataType.builtin.map Prod.fst := by decide
  refine ⟨hsame [] [("س", .string)] fun name hname => ?_,
    hwarnings (by decide +kernel) (by decide) (by decide), by decide +kernel⟩
  have hne : name ≠ "صحيح" ∧ name ≠ "حرفي" :=
    ⟨fun h => hname (h ▸ hbuiltin.1), fun h => hname (h ▸ hbuiltin.2)⟩
  have hkeys' : (Declarations.update [] [("س", .string)]).keys = ["س"] := by decide
  rw [hkeys, hkeys']
  simp [hne]

end Barnamaj
