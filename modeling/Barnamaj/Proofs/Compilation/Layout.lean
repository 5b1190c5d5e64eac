import Barnamaj.Proofs.Compilation.Verdict
import Barnamaj.Proofs.Parser.Batch
import Barnamaj.Proofs.Tree.Unplaced

/-!
# Layout does not matter

The blanks in a text only keep its lexemes apart: the same lexemes with other blanks between them
are read as the same lexemes. And a compilation depends on the lexemes only: of texts with the same
lexemes, the parser makes trees that are alike, these use the same names in the same order, and they
have the same code. Only the places of reports differ, but they are those of corresponding tokens.
-/

namespace Barnamaj

open Text

/-! ### The same lexemes with other blanks -/

section Blanks

variable {pieces : List (List Char × Token)} {last : List Char}

/-- Behind a lexeme there are blanks, or nothing. -/
lemma ends_spelled (hb : ∀ blanks ∈ pieces.map Prod.fst ++ [last], ∀ x ∈ blanks, isBlank x = true)
    (hne : ∀ blanks ∈ pieces.map Prod.fst, blanks ≠ []) : Lexeme.Ends (spelled pieces ++ last) := by
  intro b hmem
  cases pieces with
  | nil => exact hb last (by simp) b (List.mem_of_mem_head? hmem)
  | cons piece pieces =>
    obtain ⟨blanks, t⟩ := piece
    obtain ⟨c, cs, rfl⟩ := List.exists_cons_of_ne_nil (hne blanks (by simp))
    have hbc : b = c := by simpa [spelled, eq_comm] using hmem
    exact hb (c :: cs) (by simp) b (by simp [hbc])

/-- Lexemes with blanks between any two of them spell just these lexemes. -/
lemma spells_spelled (hf : ∀ t ∈ pieces.map Prod.snd, t.toLexeme.Formed)
    (hb : ∀ blanks ∈ pieces.map Prod.fst ++ [last], ∀ x ∈ blanks, isBlank x = true)
    (hne : ∀ blanks ∈ (pieces.map Prod.fst).tail, blanks ≠ []) :
    Spells (spelled pieces ++ last) ((pieces.map Prod.snd).map Token.toLexeme) := by
  induction pieces with
  | nil => exact .nil (hb last (by simp))
  | cons piece pieces ih =>
    obtain ⟨blanks, t⟩ := piece
    rw [List.map_cons, List.forall_mem_cons] at hf
    rw [List.map_cons, List.cons_append, List.forall_mem_cons] at hb
    have hne' : ∀ blanks ∈ pieces.map Prod.fst, blanks ≠ [] := hne
    have hrest := ih hf.2 hb.2 fun blanks hmem => hne' blanks (List.mem_of_mem_tail hmem)
    have htext : spelled ((blanks, t) :: pieces) ++ last =
        blanks ++ (t.toLexeme.text.toList ++ (spelled pieces ++ last)) := by
      simp [spelled, Token.toLexeme]
    rw [htext]
    exact .cons hb.1 hf.1.stable (ends_spelled hb.2 hne') hrest

end Blanks

lemma Cursor.toLexeme_of_eof {c : Cursor} {ts : List Token} (h : c.tokenize = .ok ts) :
    ∀ t ∈ ts, t.kind = .eof → t.toLexeme = Lexeme.ending := by
  induction ts generalizing c with
  | nil => simp
  | cons t ts ih =>
    obtain ⟨_, _, heq, ht, hts⟩ := tokenize_eq_ok h
    cases heq
    rw [List.forall_mem_cons]
    refine ⟨fun hk => ?_, ?_⟩
    · have hend := rest_skipBlanks_of_eof ht hk
      rw [rest_skipBlanks] at hend
      obtain ⟨t', ht', hl, -⟩ := nextToken_of_end hend
      rw [ht] at ht'
      cases ht'
      exact hl
    · rcases hts with ⟨-, rfl⟩ | ⟨-, hts⟩
      · simp
      · exact ih hts

/-- The tokens of a text are read again from any text that has blanks between their lexemes. -/
lemma tokenize_spelled {source : String} {ts : List Token} {pieces : List (List Char × Token)}
    {last : List Char} (h : tokenize source = .ok ts) (hp : pieces.map Prod.snd = ts.dropLast)
    (hb : ∀ blanks ∈ pieces.map Prod.fst ++ [last], ∀ x ∈ blanks, isBlank x = true)
    (hne : ∀ blanks ∈ (pieces.map Prod.fst).tail, blanks ≠ []) :
    ∃ us, tokenize (String.ofList (spelled pieces ++ last)) = .ok us ∧ SameLexemes us ts := by
  obtain ⟨vs, ending, rfl, hk, hvs⟩ := Cursor.endsOnce_of_tokenize h
  rw [List.dropLast_concat] at hp
  have hformed : ∀ t ∈ pieces.map Prod.snd, t.toLexeme.Formed := by
    intro t ht
    rw [hp] at ht
    exact Cursor.formed_of_tokenize h t (by simp [ht]) (hvs t ht)
  have hspells := spells_spelled hformed hb hne
  have hrest : (Cursor.ofSource (String.ofList (spelled pieces ++ last))).rest =
      spelled pieces ++ last := String.toList_ofList
  rw [← hrest, hp] at hspells
  obtain ⟨us, hus, hmap⟩ := Cursor.tokenize_of_spells hspells (List.forall_mem_map.mpr hvs)
  have hending := Cursor.toLexeme_of_eof h ending (by simp) hk
  refine ⟨us, hus, ?_⟩
  rw [SameLexemes, hmap, List.map_append, List.map_singleton, hending]

/-! ### Code of alike trees -/

variable {R : Token → Token → Prop}

namespace Generate

variable {α β : Type} {m n : Generate α} {f g : α → Generate β}

/-- Wherever the first step succeeds, the second one does the same. -/
def Repeats (m n : Generate α) : Prop :=
  ∀ s a s', m s = .ok a s' → n s = .ok a s'

lemma Repeats.refl (m : Generate α) : Repeats m m :=
  fun _ _ _ h => h

lemma Repeats.bind (h : Repeats m n) (hf : ∀ a, Repeats (f a) (g a)) :
    Repeats (m >>= f) (n >>= g) := by
  intro s b s' hb
  obtain ⟨a, s₁, hm, hfa⟩ := bind_eq_ok hb
  have hn := h s a s₁ hm
  have hg := hf a s₁ b s' hfa
  simp only [Bind.bind, EStateM.bind, hn, hg]

lemma repeats_opCode {t u : Token} (h : t.kind = u.kind) : Repeats (opCode t) (opCode u) := by
  intro s op s' hop
  rw [opCode] at hop ⊢
  rw [← h]
  cases hl : OpCode.ofOperator.lookup t.kind with
  | none =>
    rw [hl] at hop
    cases hop
  | some code =>
    rw [hl] at hop
    exact hop

section Alike

variable (hR : ∀ t u, R t u → t.toLexeme = u.toLexeme)
include hR

/-- Corresponding tokens are operands of the same value. -/
lemma expression_of_rel {t u : Token} (h : R t u) :
    expression t.accessNode = expression u.accessNode ∧
      expression t.literalNode = expression u.literalNode ∧
      target t.accessNode = target u.accessNode := by
  have hl := hR t u h
  simp only [Token.toLexeme, Lexeme.mk.injEq] at hl
  obtain ⟨hkind, hlexeme, hvalue⟩ := hl
  refine ⟨?_, ?_, ?_⟩
  · simp only [Token.accessNode, expression, hlexeme]
  · simp only [Token.literalNode, expression, hkind, hvalue]
  · simp only [Token.accessNode, target, hlexeme]

lemma repeats_expression {e e' : Expression} (h : e.Alike R e') :
    Repeats (expression e.toNode) (expression e'.toNode) := by
  induction h with
  | literal h =>
    rw [Expression.toNode, Expression.toNode, (expression_of_rel hR h).2.1]
    exact .refl _
  | access h =>
    rw [Expression.toNode, Expression.toNode, (expression_of_rel hR h).1]
    exact .refl _
  | unary h _ ih =>
    rw [Expression.toNode, Expression.toNode, expression, expression]
    exact ih.bind fun _ => (Repeats.refl _).bind fun _ =>
      (repeats_opCode (congrArg Lexeme.kind (hR _ _ h))).bind fun _ => .refl _
  | binary h _ _ iha ihb =>
    rw [Expression.toNode, Expression.toNode, expression, expression]
    exact iha.bind fun _ => ihb.bind fun _ => (Repeats.refl _).bind fun _ =>
      (repeats_opCode (congrArg Lexeme.kind (hR _ _ h))).bind fun _ => .refl _

lemma repeats_printItems {is js : List PrintItem} (h : List.Forall₂ (PrintItem.Alike R) is js) :
    Repeats (printItems (is.map PrintItem.toNode)) (printItems (js.map PrintItem.toNode)) := by
  induction h with
  | nil => exact .refl _
  | cons hi _ ih =>
    rw [List.map_cons, List.map_cons, printItems, printItems]
    refine Repeats.bind ?_ fun _ => (Repeats.refl _).bind fun _ => ih
    cases hi with
    | literal h =>
      rw [PrintItem.toNode, PrintItem.toNode, (expression_of_rel hR h).2.1]
      exact .refl _
    | access h =>
      rw [PrintItem.toNode, PrintItem.toNode, (expression_of_rel hR h).1]
      exact .refl _

lemma repeats_statement {s s' : Statement} (h : s.Alike R s') :
    Repeats (statement s.toNode) (statement s'.toNode) := by
  cases h with
  | assignment h he =>
    rw [Statement.toNode, Statement.toNode, statement, statement, (expression_of_rel hR h).2.2]
    exact (repeats_expression hR he).bind fun _ => .refl _
  | print h hs =>
    rw [Statement.toNode, Statement.toNode, statement, statement]
    exact repeats_printItems hR hs
  | read h ht =>
    rw [Statement.toNode, Statement.toNode, statement, statement, (expression_of_rel hR ht).2.2]
    exact .refl _

lemma repeats_statements {ss ss' : List Statement} (h : List.Forall₂ (Statement.Alike R) ss ss') :
    Repeats (statements (ss.map Statement.toNode)) (statements (ss'.map Statement.toNode)) := by
  induction h with
  | nil => exact .refl _
  | cons hs _ ih =>
    rw [List.map_cons, List.map_cons, statements, statements]
    exact (repeats_statement hR hs).bind fun _ => ih

end Alike

end Generate

/-- Programs that are alike have the same code. -/
lemma generateCode_of_alike (hR : ∀ t u, R t u → t.toLexeme = u.toLexeme) {p p' : Program}
    (h : p.Alike R p') {code : List Instruction} (hc : generateCode p.toNode = .ok code) :
    generateCode p'.toNode = .ok code := by
  have hstatements : Generate.Repeats (Generate.statements (p.statements.map Statement.toNode))
      (Generate.statements (p'.statements.map Statement.toNode)) := by
    cases h with
    | mk _ _ hs => exact Generate.repeats_statements hR hs
  have hcode : Generate.Repeats (Generate.code p.toNode) (Generate.code p'.toNode) :=
    (Generate.Repeats.refl _).bind fun _ => hstatements.bind fun _ => .refl _
  rw [generateCode] at hc ⊢
  cases hg : Generate.code p.toNode {} with
  | error f g =>
    rw [hg] at hc
    cases hc
  | ok code' g =>
    rw [hg] at hc
    cases hc
    rw [hcode _ _ _ hg]

/-! ### Names in alike trees -/

/-- Uses of corresponding tokens, in the same way. -/
def NameUse.Alike (R : Token → Token → Prop) (u u' : NameUse) : Prop :=
  R u.token u'.token ∧ u.reading = u'.reading

lemma Expression.Alike.reads {e e' : Expression} (h : e.Alike R e') :
    List.Forall₂ R e.reads e'.reads := by
  induction h with
  | literal _ => exact .nil
  | access h => exact .cons h .nil
  | unary _ _ ih => exact ih
  | binary _ _ _ iha ihb => exact List.rel_append iha ihb

lemma PrintItem.Alike.uses {i i' : PrintItem} (h : i.Alike R i') :
    List.Forall₂ (NameUse.Alike R) i.uses i'.uses := by
  cases h with
  | literal _ => exact .nil
  | access h => exact .cons ⟨h, rfl⟩ .nil

lemma Statement.Alike.uses {s s' : Statement} (h : s.Alike R s') :
    List.Forall₂ (NameUse.Alike R) s.uses s'.uses := by
  cases h with
  | assignment h he =>
    exact .cons ⟨h, rfl⟩ (List.rel_map (fun _ _ ht => ⟨ht, rfl⟩) he.reads)
  | print _ hs => exact List.rel_flatMap hs fun _ _ => PrintItem.Alike.uses
  | read _ ht => exact .cons ⟨ht, rfl⟩ .nil

/-- Programs that are alike use corresponding names in the same order. -/
lemma Program.Alike.uses {p p' : Program} (h : p.Alike R p') :
    List.Forall₂ (NameUse.Alike R) p.uses p'.uses := by
  cases h with
  | mk _ _ hs => exact List.rel_flatMap hs fun _ _ => Statement.Alike.uses

/-- Searches that judge corresponding elements alike find corresponding elements. -/
lemma rel_find? {α β : Type} {S : α → β → Prop} {p : α → Bool} {q : β → Bool}
    (hpq : ∀ a b, S a b → p a = q b) {as : List α} {bs : List β} (h : List.Forall₂ S as bs) :
    Option.Rel S (as.find? p) (bs.find? q) := by
  induction h with
  | nil => exact .none
  | @cons a b as bs hab _ ih =>
    rw [List.find?_cons, List.find?_cons, hpq a b hab]
    split
    · exact .some hab
    · exact ih

/-! ### Parsing the same lexemes -/

/-- The tokens stand at the same index of the two lists. -/
def AtSameIndex (ts us : List Token) (t u : Token) : Prop :=
  ∃ i : Nat, ts[i]? = some t ∧ us[i]? = some u

section SameLexemes

variable {ts us : List Token} {t u : Token}

lemma SameLexemes.toLexeme_eq (h : SameLexemes ts us) (htu : AtSameIndex ts us t u) :
    t.toLexeme = u.toLexeme := by
  obtain ⟨i, ht, hu⟩ := htu
  have hi := congrArg (·[i]?) h
  simpa [ht, hu] using hi

lemma SameLexemes.forall₂_atSameIndex (h : SameLexemes ts us) :
    List.Forall₂ (AtSameIndex ts us) ts us := by
  have hlength := congrArg List.length h
  rw [List.length_map, List.length_map] at hlength
  rw [List.forall₂_iff_get]
  refine ⟨hlength, fun i hi hi' => ⟨i, ?_, ?_⟩⟩
  · exact List.getElem?_eq_getElem hi
  · exact List.getElem?_eq_getElem hi'

/-- Lists of the same lexemes side by side, as far as an end token is left. -/
def Correspondence.ofLexemes (h : SameLexemes ts us) :
    Correspondence (List (Except LexicalError Token)) (List (Except LexicalError Token)) where
  token := AtSameIndex ts us
  supply s s' := ∃ xs ys : List Token, s = xs.map .ok ∧ s' = ys.map .ok ∧
    List.Forall₂ (AtSameIndex ts us) xs ys ∧ ∃ ending ∈ xs, ending.kind = .eof
  excused _ := False
  toLexeme_eq := h.toLexeme_eq
  read := by
    rintro s s' ⟨xs, ys, rfl, rfl, hxy, ending, hmem, hend⟩
    cases hxy with
    | nil => simp at hmem
    | @cons x y xs ys htu hrest =>
      have hkind : x.kind = y.kind := congrArg Lexeme.kind (h.toLexeme_eq htu)
      refine Or.inr ⟨?_, Or.inl ⟨x, y, rfl, rfl, htu⟩⟩
      by_cases hk : x.kind = .eof
      · exact ⟨x :: xs, y :: ys, rest_cons_of_eof hk, rest_cons_of_eof (hkind ▸ hk),
          .cons htu hrest, ending, hmem, hend⟩
      · have hmem' : ending ∈ xs := by
          rcases List.mem_cons.mp hmem with rfl | hmem'
          · exact absurd hend hk
          · exact hmem'
        exact ⟨xs, ys, rest_cons_of_ne_eof hk, rest_cons_of_ne_eof (hkind ▸ hk), hrest, ending,
          hmem', hend⟩

variable {source source' : String}

/-- Texts with the same lexemes have trees that are alike, or the same fault at the same index. -/
lemma parse_cases_of_sameLexemes (h : tokenize source = .ok ts) (h' : tokenize source' = .ok us)
    (hs : SameLexemes ts us) :
    (∃ p p', parse source = .ok p ∧ parse source' = .ok p' ∧ p.Alike (AtSameIndex ts us) p') ∨
      ∃ fault t u, parse source = .error (.grammar ⟨fault, t⟩) ∧
        parse source' = .error (.grammar ⟨fault, u⟩) ∧ AtSameIndex ts us t u := by
  obtain ⟨vs, ending, hts, hk, -⟩ := Cursor.endsOnce_of_tokenize h
  have hsupply : (Correspondence.ofLexemes hs).supply (ts.map .ok) (us.map .ok) :=
    ⟨ts, us, rfl, rfl, hs.forall₂_atSameIndex, ending, by simp [hts], hk⟩
  rcases (Correspondence.ofLexemes hs).parseFrom_cases hsupply with
    ⟨e, -, he⟩ | ⟨p, p', hp, hp', halike⟩ | ⟨e, e', hp, hp', halike⟩
  · exact he.elim
  · left
    exact ⟨p, p', (parse_eq_parseTokens h).trans hp, (parse_eq_parseTokens h').trans hp', halike⟩
  · right
    have hparse := (parse_eq_parseTokens h).trans hp
    have hparse' := (parse_eq_parseTokens h').trans hp'
    cases halike with
    | lexical l =>
      -- what can be read has no lexical fault
      rw [tokenize_of_parse_lexical hparse] at h
      cases h
    | grammar fault htu => exact ⟨fault, _, _, hparse, hparse', htu⟩

end SameLexemes

/-! ### Compiling the same lexemes -/

/-- Reports of the same class and text, one of each token. -/
inductive Diagnostic.SameFault (t u : Token) : Diagnostic → Diagnostic → Prop where
  | semantic (text : String) :
      SameFault t u (.located .semantic text t.position) (.located .semantic text u.position)
  | parsing (text : String) (expected : Option TokenKind) :
      SameFault t u (.located (.parsing t expected) text t.position)
        (.located (.parsing u expected) text u.position)

/-- Compilations that differ in the places of reports only: they have the same code and the same
warnings, or they report the same fault at the same index of their tokens. -/
structure Compilation.Agree (ts us : List Token) (c c' : Compilation) : Prop where
  succeeded : c.succeeded = c'.succeeded
  instructions : c.instructions = c'.instructions
  listing : c.listing? = c'.listing?
  warnings : c.warnings = c'.warnings
  diagnostic : c.diagnostic? = none ∧ c'.diagnostic? = none ∨
    ∃ t u d d', AtSameIndex ts us t u ∧ c.diagnostic? = some d ∧ c'.diagnostic? = some d' ∧
      d.SameFault t u d'

namespace Compilation

variable {ts us : List Token} {c c' : Compilation}

lemma agree_of_ok {code : List Instruction} (h : c.outcome = .ok code) (h' : c'.outcome = .ok code)
    (hw : c.warnings = c'.warnings) : c.Agree ts us c' := by
  obtain ⟨h₁, h₂, h₃, h₄, -⟩ := of_ok h
  obtain ⟨h₁', h₂', h₃', h₄', -⟩ := of_ok h'
  exact ⟨h₁.trans h₁'.symm, h₂.trans h₂'.symm, h₃.trans h₃'.symm, hw, Or.inl ⟨h₄, h₄'⟩⟩

lemma agree_of_diagnosed {t u : Token} {d d' : Diagnostic} (h : c.outcome = .error (.diagnosed d))
    (h' : c'.outcome = .error (.diagnosed d')) (htu : AtSameIndex ts us t u)
    (hd : d.SameFault t u d') (hw : c.warnings = c'.warnings) : c.Agree ts us c' := by
  obtain ⟨h₁, h₂, h₃, h₄, -⟩ := of_diagnosed h
  obtain ⟨h₁', h₂', h₃', h₄', -⟩ := of_diagnosed h'
  exact ⟨h₁.trans h₁'.symm, h₂.trans h₂'.symm, h₃.trans h₃'.symm, hw,
    Or.inr ⟨t, u, d, d', htu, h₄, h₄', hd⟩⟩

end Compilation

section Compile

variable {source source' : String} {d : Declarations} {ts us : List Token} {p p' : Program}

lemma GrammarError.sameFault {t u : Token} (h : t.toLexeme = u.toLexeme) (fault : GrammarFault) :
    (ParseError.grammar ⟨fault, t⟩).diagnostic.SameFault t u
      (ParseError.grammar ⟨fault, u⟩).diagnostic := by
  have hkind : t.kind = u.kind := congrArg Lexeme.kind h
  have hlexeme : t.lexeme = u.lexeme := congrArg Lexeme.text h
  have htext : GrammarError.text ⟨fault, t⟩ = GrammarError.text ⟨fault, u⟩ := by
    cases fault <;> simp only [GrammarError.text, hkind, hlexeme]
  simp only [ParseError.diagnostic, Diagnostic.parsing, htext]
  exact .parsing _ _

lemma NameUse.Alike.sameFault {u u' : NameUse} (h : u.Alike R u')
    (hR : ∀ t u, R t u → t.toLexeme = u.toLexeme) :
    u.fault.diagnostic.SameFault u.token u'.token u'.fault.diagnostic := by
  obtain ⟨htoken, hreading⟩ := h
  have hlexeme : u.token.lexeme = u'.token.lexeme := congrArg Lexeme.text (hR _ _ htoken)
  rw [u.diagnostic_fault, u'.diagnostic_fault, hlexeme, hreading]
  exact .semantic _

/-- The warnings about declarations do not depend on the text, if it has a tree. -/
lemma warnings_of_parse (path : String) (h : parse source = .ok p) :
    (compile path d source).warnings =
      ((declareGlobally d).2.filterMap declarationFault?).map SemanticFault.text := by
  simp only [compile, h, compileTree]
  split
  · rfl
  · split <;> rfl

/-- Texts whose trees are alike are compiled alike. -/
lemma agree_of_alike (path path' : String) (hp : parse source = .ok p)
    (hp' : parse source' = .ok p') (hs : SameLexemes ts us)
    (halike : p.Alike (AtSameIndex ts us) p') :
    (compile path d source).Agree ts us (compile path' d source') := by
  have hR : ∀ t u, AtSameIndex ts us t u → t.toLexeme = u.toLexeme := fun _ _ => hs.toLexeme_eq
  have hw : (compile path d source).warnings = (compile path' d source').warnings := by
    rw [warnings_of_parse path hp, warnings_of_parse path' hp']
  obtain ⟨n, _, hts, hd⟩ := exists_tokenize_of_parse hp
  obtain ⟨n', _, hts', hd'⟩ := exists_tokenize_of_parse hp'
  obtain ⟨code, hout⟩ := outcome_of_parse (d := d) path hp hts hd
  obtain ⟨code', hout'⟩ := outcome_of_parse (d := d) path' hp' hts' hd'
  have hfound : Option.Rel (NameUse.Alike (AtSameIndex ts us))
      (p.uses.find? fun u => d.lacks u.token) (p'.uses.find? fun u => d.lacks u.token) := by
    refine rel_find? (fun u u' hu => ?_) halike.uses
    have hlexeme : u.token.lexeme = u'.token.lexeme := congrArg Lexeme.text (hR _ _ hu.1)
    simp only [Declarations.lacks, hlexeme]
  generalize (p.uses.find? fun u => d.lacks u.token) = found at hout hfound
  generalize (p'.uses.find? fun u => d.lacks u.token) = found' at hout' hfound
  cases hfound with
  | none =>
    obtain ⟨_, hq, hgen⟩ := compile_eq_ok hout
    obtain ⟨_, hq', hgen'⟩ := compile_eq_ok hout'
    rw [hp] at hq
    rw [hp'] at hq'
    cases hq
    cases hq'
    rw [generateCode_of_alike hR halike hgen] at hgen'
    rw [← Except.ok.inj hgen'] at hout'
    exact Compilation.agree_of_ok hout hout' hw
  | some hu =>
    exact Compilation.agree_of_diagnosed hout hout' hu.1 (hu.sameFault hR) hw

/-- Texts with the same lexemes are compiled alike. -/
lemma agree_of_sameLexemes (path path' : String) (d : Declarations) (h : tokenize source = .ok ts)
    (h' : tokenize source' = .ok us) (hs : SameLexemes ts us) :
    (compile path d source).Agree ts us (compile path' d source') := by
  rcases parse_cases_of_sameLexemes h h' hs with
    ⟨p, p', hp, hp', halike⟩ | ⟨fault, t, u, hp, hp', htu⟩
  · exact agree_of_alike path path' hp hp' hs halike
  · have hfault := GrammarError.sameFault (hs.toLexeme_eq htu) fault
    refine Compilation.agree_of_diagnosed ?_ ?_ htu hfault ?_
    · simp only [compile, hp]
    · simp only [compile, hp']
    · simp only [compile, hp, hp', Compilation.warnings]

end Compile

/-- Layout does not matter. If a text can be read, then so can its lexemes with any blanks around
them, as long as there are some between any two, and they are read as the same lexemes. And if
another text has the same lexemes, the compilations of the two texts with the same declarations
agree in everything but the places of reports. -/
theorem compile_ignores_layout {source : String} {ts : List Token} (h : tokenize source = .ok ts) :
    (∀ (pieces : List (List Char × Token)) (last : List Char),
      pieces.map Prod.snd = ts.dropLast →
      (∀ blanks ∈ pieces.map Prod.fst ++ [last], ∀ x ∈ blanks, isBlank x = true) →
      (∀ blanks ∈ (pieces.map Prod.fst).tail, blanks ≠ []) →
      ∃ us, tokenize (String.ofList (spelled pieces ++ last)) = .ok us ∧ SameLexemes us ts) ∧
    (∀ (source' : String) (us : List Token) (path path' : String) (d : Declarations),
      tokenize source' = .ok us → SameLexemes ts us →
      (compile path d source).Agree ts us (compile path' d source')) := by
  refine ⟨fun pieces last hp hb hne => tokenize_spelled h hp hb hne, ?_⟩
  intro source' us path path' d h' hs
  exact agree_of_sameLexemes path path' d h h' hs

theorem spread_text_reports_same_fault :
    ((compile "" [] "برنامج ب").diagnostic?.map fun d => (d.text, d.line, d.column)) =
      some ("Expected ';' after program name. Expected SEMICOLON, got EOF", some 1, some 9) ∧
    ((compile "" [] " برنامج\n  ب ").diagnostic?.map fun d => (d.text, d.line, d.column)) =
      some ("Expected ';' after program name. Expected SEMICOLON, got EOF", some 2, some 5) ∧
    ∃ ts us, tokenize "برنامج ب" = .ok ts ∧ tokenize " برنامج\n  ب " = .ok us ∧
      (compile "" [] "برنامج ب").Agree ts us (compile "" [] " برنامج\n  ب ") := by
  have h : tokenize "برنامج ب" = .ok
      [⟨.programKw, "برنامج", .absent, ⟨1, 1⟩⟩, ⟨.identifier, "ب", .text "ب", ⟨1, 8⟩⟩,
        ⟨.eof, "EOF", .absent, ⟨1, 9⟩⟩] := by
    decide +kernel
  obtain ⟨us, hus, hs⟩ := (compile_ignores_layout h).1
    [([' '], ⟨.programKw, "برنامج", .absent, ⟨1, 1⟩⟩),
      (['\n', ' ', ' '], ⟨.identifier, "ب", .text "ب", ⟨1, 8⟩⟩)] [' '] rfl
    (by simp [isBlank, blankRanges, RangeTable.contains, liesIn]) (by decide)
  have hspread : String.ofList (spelled [([' '], ⟨.programKw, "برنامج", .absent, ⟨1, 1⟩⟩),
      (['\n', ' ', ' '], ⟨.identifier, "ب", .text "ب", ⟨1, 8⟩⟩)] ++ [' ']) =
      " برنامج\n  ب " := by
    decide +kernel
  rw [hspread] at hus
  exact ⟨by decide +kernel, by decide +kernel, _, us, h, hus,
    (compile_ignores_layout h).2 _ us "" "" [] hus hs.symm⟩

end Barnamaj
