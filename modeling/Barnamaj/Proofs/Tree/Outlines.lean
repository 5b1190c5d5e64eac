import Barnamaj.Proofs.Decimal.RoundTrip
import Barnamaj.Proofs.Text.Quoting
import Barnamaj.Proofs.Tree.Alike
import Barnamaj.Proofs.Tree.Preorder
import Barnamaj.Proofs.Tree.Unparse

/-!
# A program is told by its outline

The heading of a node in a program of a source text (`Program.Genuine`) stands on one line and tells
the token of the node, except for its place and, if it is a constant, for its spelling
(`Token.Interchangeable`): no two constants of one kind are shown alike. The lines tell the rest, so
programs with equal outlines are equal up to places and spellings of constants.
-/

namespace Barnamaj

open Text Decimal

/-! ### Lexemes -/

namespace Lexeme

variable {l l' : Lexeme}

/-- Lexemes of one text are equal. -/
lemma Formed.eq_of_text (h : l.Formed) (h' : l'.Formed) (heq : l.text = l'.text) : l = l' := by
  obtain ⟨c, cs, htext, -, hscan⟩ := h.stable
  obtain ⟨c', cs', htext', -, hscan'⟩ := h'.stable
  rw [heq, htext'] at htext
  cases htext
  have hagain := (hscan [] (by simp [Ends])).symm.trans (hscan' [] (by simp [Ends]))
  exact Except.ok.inj (Scan.mk.inj hagain).2

lemma ne_newline_of_isWordPart {c : Char} (h : isWordPart c = true) : '\n' ≠ c := by
  rintro rfl
  exact absurd (notMem_marks_of_isWordPart h) (by decide)

/-- A lexeme stands on one line. -/
lemma Formed.notMem_newline (h : l.Formed) : '\n' ∉ l.text.toList := by
  have hword : ∀ {cs : List Char}, (∀ c ∈ cs, isWordPart c = true) → '\n' ∉ cs :=
    fun hcs hmem => ne_newline_of_isWordPart (hcs _ hmem) rfl
  have hdigits : ∀ {cs : List Char}, (∀ c ∈ cs, isDigit c = true) → '\n' ∉ cs :=
    fun hcs => hword fun c hc => by simp [isWordPart, hcs c hc]
  cases h with
  | @word c cs hc hcs =>
    rw [text_ofWord, String.toList_ofList]
    exact hword (List.forall_mem_cons.mpr ⟨by simp [isWordPart, hc], hcs⟩)
  | integer _ hcs hl =>
    rw [(ofInteger_eq_ok hl).2, String.toList_ofList]
    exact hdigits hcs
  | real _ hw hf hl =>
    rw [(ofReal_eq_ok hl).2, String.toList_ofList, List.mem_append]
    rintro (hmem | hmem)
    · exact hdigits hw hmem
    · exact hdigits hf (List.mem_of_ne_of_mem (by decide) hmem)
  | string hb => simp [Written.notMem_of_forall hb (c := '\n') (by decide)]
  | @character c hc => simp [characterMark, hc.symm]
  | @symbol c kind hk =>
    rw [String.toList_ofList, List.mem_singleton]
    rintro rfl
    exact absurd (isBlank_of_lookup hk).2.2.1 (by decide)
  | @operator kind text hk =>
    have htable : ∀ x ∈ operators, '\n' ∉ x.2.toList := by decide
    exact htable _ hk

lemma Formed.mem_keywords (h : l.Formed) (hk : l.kind ∈ [.printKw, .readKw]) :
    (l.text, l.kind) ∈ TokenKind.keywords := by
  have hsymbols : ∀ k ∈ TokenKind.symbols.map Prod.snd ++ operators.map Prod.fst,
      k ∉ [TokenKind.printKw, .readKw] := by
    decide
  cases h with
  | word _ _ =>
    rw [ofWord] at hk ⊢
    split
    · next k hlookup =>
      obtain ⟨l₁, l₂, hl, -⟩ := List.lookup_eq_some_iff.mp hlookup
      rw [hl]
      simp
    · next hlookup =>
      simp only [hlookup] at hk
      exact absurd hk (by decide)
  | integer _ _ hl => rw [(ofInteger_eq_ok hl).1] at hk; exact absurd hk (by decide)
  | real _ _ _ hl => rw [(ofReal_eq_ok hl).1] at hk; exact absurd hk (by decide)
  | string _ => exact absurd hk (by simp)
  | character _ => exact absurd hk (by simp)
  | symbol hk' =>
    exact absurd hk (hsymbols _ (List.mem_append_left _ (mem_symbols_of_lookup hk')))
  | operator hk' =>
    exact absurd hk (hsymbols _ (List.mem_append_right _ (List.mem_map_of_mem hk')))

/-- The words that print and read are spelled in one way. -/
lemma Formed.eq_of_keyword (h : l.Formed) (h' : l'.Formed) (hk : l.kind ∈ [.printKw, .readKw])
    (hkind : l.kind = l'.kind) : l = l' := by
  have htable : ∀ x ∈ TokenKind.keywords, ∀ y ∈ TokenKind.keywords, x.2 = y.2 →
      x.2 ∈ [TokenKind.printKw, .readKw] → x.1 = y.1 := by
    decide +kernel
  exact h.eq_of_text h' (htable _ (h.mem_keywords hk) _ (h'.mem_keywords (hkind ▸ hk)) hkind hk)

/-- A real constant is a rounded decimal. -/
lemma Formed.exists_roundsTo (h : l.Formed) (hk : l.kind = .realLiteral) :
    ∃ r x, l.value = .real r ∧ Binary64.RoundsTo x r := by
  have hsymbols : TokenKind.realLiteral ∉
      TokenKind.symbols.map Prod.snd ++ operators.map Prod.fst := by
    decide
  cases h with
  | word _ _ =>
    rcases kind_ofWord (String.ofList _) with hword | hword
    · rw [hword] at hk
      cases hk
    · exact absurd (hk ▸ hword) (by decide)
  | integer _ _ hl => rw [(ofInteger_eq_ok hl).1] at hk; cases hk
  | real _ _ _ hl =>
    simp only [ofReal] at hl
    split_ifs at hl
    cases hl
    exact ⟨_, _, rfl, Binary64.roundsTo_ofDecimal _ _⟩
  | string _ => cases hk
  | character _ => cases hk
  | symbol hk' =>
    exact absurd (List.mem_append_left _ (hk ▸ mem_symbols_of_lookup hk')) hsymbols
  | operator hk' =>
    exact absurd (List.mem_append_right _ (hk ▸ List.mem_map_of_mem (f := Prod.fst) hk')) hsymbols

end Lexeme

/-! ### Constants -/

namespace Operand

variable {v v' : Value} {k : TokenKind}

lemma Formed.inspect_injective (h : (constant v (some k)).Formed)
    (h' : (constant v' (some k)).Formed) (hk : k ≠ .realLiteral) (hv : v.inspect = v'.inspect) :
    v = v' := by
  cases h with
  | integer n =>
    cases h' with
    | integer n' => rw [toString_natCast_injective hv]
  | real _ _ => exact absurd rfl hk
  | infinity => exact absurd rfl hk
  | string _ =>
    cases h' with
    | string _ => rw [quoted_injective hv]
  | character _ =>
    cases h' with
    | character _ => rw [quoted_injective hv]
  | trueConstant =>
    cases h' with
    | trueConstant => rfl
  | falseConstant =>
    cases h' with
    | falseConstant => rfl

/-- A constant is shown on one line. -/
lemma Formed.notMem_newline_inspect (h : (constant v (some k)).Formed) :
    '\n' ∉ v.inspect.toList := by
  cases h with
  | integer n =>
    change '\n' ∉ (toString (n : ℤ)).toList
    rw [toList_toString_natCast]
    exact fun hmem => absurd (isDigit_of_mem_toDigits _ hmem) (by decide)
  | real m e =>
    intro hmem
    exact absurd ((Binary64.showsReal_text m e).digit_or_mark _ hmem) (by decide)
  | infinity => decide
  | string _ => exact notMem_newline_quoted _
  | character _ => exact notMem_newline_quoted _
  | trueConstant => decide
  | falseConstant => decide

end Operand

/-- Constants of one kind that are shown alike are equal. -/
lemma Lexeme.Formed.inspect_injective {l l' : Lexeme} (h : l.Formed) (h' : l'.Formed)
    (hk : l.kind ∈ TokenKind.literal) (hkind : l.kind = l'.kind)
    (hv : l.value.inspect = l'.value.inspect) : l.value = l'.value := by
  by_cases hreal : l.kind = .realLiteral
  · obtain ⟨r, x, hr, hround⟩ := h.exists_roundsTo hreal
    obtain ⟨r', x', hr', hround'⟩ := h'.exists_roundsTo (hkind ▸ hreal)
    rw [hr, hr'] at hv ⊢
    rw [hround.text_injective hround' hv]
  · have hc := h.formed_constant hk
    have hc' := h'.formed_constant (hkind ▸ hk)
    rw [← hkind] at hc'
    exact hc.inspect_injective hc' hreal hv

/-! ### Tokens -/

namespace Token

variable {t u : Token}

/-- Tokens that differ at most in their places and, if they are constants, in their spellings. -/
def Interchangeable (t u : Token) : Prop :=
  t.kind = u.kind ∧ t.value = u.value ∧ (t.kind ∉ TokenKind.literal → t.lexeme = u.lexeme)

lemma interchangeable_of_toLexeme (h : t.toLexeme = u.toLexeme) : t.Interchangeable u := by
  rw [toLexeme, toLexeme, Lexeme.mk.injEq] at h
  exact ⟨h.1, h.2.2, fun _ => h.2.1⟩

lemma Formed.interchangeable_of_lexeme (ht : t.Formed) (hu : u.Formed)
    (h : t.lexeme = u.lexeme) : t.Interchangeable u :=
  interchangeable_of_toLexeme (Lexeme.Formed.eq_of_text ht hu h)

lemma Formed.interchangeable_of_keyword (ht : t.Formed) (hu : u.Formed)
    (hk : t.kind ∈ [.printKw, .readKw]) (h : t.kind = u.kind) : t.Interchangeable u :=
  interchangeable_of_toLexeme (Lexeme.Formed.eq_of_keyword ht hu hk h)

end Token

/-! ### Headings -/

lemma TokenKind.notMem_name_of_literal :
    ∀ k ∈ literal, ',' ∉ k.name.toList ∧ '\n' ∉ k.name.toList := by
  decide +kernel

lemma TokenKind.name_injective_of_literal :
    ∀ k ∈ literal, ∀ k' ∈ literal, k.name = k'.name → k = k' := by
  decide +kernel

lemma append_append_cancel {a b s s' : String} (h : a ++ s ++ b = a ++ s' ++ b) : s = s' := by
  have hlist := congrArg String.toList h
  simp only [String.toList_append, List.append_cancel_right_eq, List.append_cancel_left_eq]
    at hlist
  exact String.toList_inj.mp hlist

namespace Token

variable {t u : Token}

/-- The heading of a constant tells its kind and its value. -/
lemma Formed.interchangeable_of_literalNode (ht : t.Formed) (hu : u.Formed)
    (hk : t.kind ∈ TokenKind.literal) (hk' : u.kind ∈ TokenKind.literal)
    (h : t.literalNode.heading = u.literalNode.heading) : t.Interchangeable u := by
  have hlist : t.kind.name.toList ++ ',' :: (' ' :: t.value.inspect.toList) =
      u.kind.name.toList ++ ',' :: (' ' :: u.value.inspect.toList) := by
    change "Literal(" ++ t.kind.name ++ ", " ++ t.value.inspect ++ ")" =
      "Literal(" ++ u.kind.name ++ ", " ++ u.value.inspect ++ ")" at h
    have h := congrArg String.toList h
    simp only [String.toList_append, List.append_cancel_right_eq] at h
    simp only [List.append_assoc, List.append_cancel_left_eq] at h
    exact h
  obtain ⟨hname, hrest⟩ := Written.append_cons_inj_of_notMem
    (TokenKind.notMem_name_of_literal _ hk).1 (TokenKind.notMem_name_of_literal _ hk').1 hlist
  have hkind : t.kind = u.kind :=
    TokenKind.name_injective_of_literal _ hk _ hk' (String.toList_inj.mp hname)
  have hvalue : t.value = u.value := Lexeme.Formed.inspect_injective ht hu hk hkind
    (String.toList_inj.mp (List.cons.inj hrest).2)
  exact ⟨hkind, hvalue, fun hnot => absurd hk hnot⟩

lemma Formed.interchangeable_of_accessNode (ht : t.Formed) (hu : u.Formed)
    (h : t.accessNode.heading = u.accessNode.heading) : t.Interchangeable u :=
  ht.interchangeable_of_lexeme hu (append_append_cancel (a := "VariableAccess(") (b := ")") h)

lemma Formed.notMem_newline_literalNode (ht : t.Formed) (hk : t.kind ∈ TokenKind.literal) :
    '\n' ∉ t.literalNode.heading.toList := by
  have hname := (TokenKind.notMem_name_of_literal _ hk).2
  have hvalue := (Lexeme.Formed.formed_constant ht hk).notMem_newline_inspect
  change '\n' ∉ ("Literal(" ++ t.kind.name ++ ", " ++ t.value.inspect ++ ")").toList
  simp only [String.toList_append, List.mem_append, not_or]
  exact ⟨⟨⟨⟨by decide, hname⟩, by decide⟩, hvalue⟩, by decide⟩

lemma Formed.notMem_newline_enclosed (ht : t.Formed) {a : String} (ha : '\n' ∉ a.toList) :
    '\n' ∉ (a ++ t.lexeme ++ ")").toList := by
  simp only [String.toList_append, List.mem_append, not_or]
  exact ⟨⟨ha, Lexeme.Formed.notMem_newline ht⟩, by decide⟩

end Token

/-! ### Programs of a text -/

/-- An expression of tokens that a text can hold, with constants in the places of constants. -/
inductive Expression.Genuine : Expression → Prop where
  | literal {t : Token} (ht : t.Formed) (hk : t.kind ∈ TokenKind.literal) : Genuine (.literal t)
  | access {t : Token} (ht : t.Formed) : Genuine (.access t)
  | unary {op : Token} {e : Expression} (hop : op.Formed) (he : Genuine e) : Genuine (.unary op e)
  | binary {op : Token} {a b : Expression} (hop : op.Formed) (ha : Genuine a) (hb : Genuine b) :
      Genuine (.binary op a b)

/-- A printed item of tokens that a text can hold. -/
inductive PrintItem.Genuine : PrintItem → Prop where
  | literal {t : Token} (ht : t.Formed) (hk : t.kind ∈ TokenKind.literal) : Genuine (.literal t)
  | access {t : Token} (ht : t.Formed) : Genuine (.access t)

/-- A statement of tokens that a text can hold, with the keywords in their places. -/
inductive Statement.Genuine : Statement → Prop where
  | assignment {t : Token} {e : Expression} (ht : t.Formed) (he : e.Genuine) :
      Genuine (.assignment t e)
  | print {t : Token} {is : List PrintItem} (ht : t.Formed) (hk : t.kind = .printKw)
      (hs : ∀ i ∈ is, i.Genuine) : Genuine (.print t is)
  | read {t u : Token} (ht : t.Formed) (hk : t.kind = .readKw) (hu : u.Formed) :
      Genuine (.read t u)

/-- A program whose name stands on one line, of statements that a text can hold. -/
structure Program.Genuine (p : Program) : Prop where
  name : '\n' ∉ p.name.toList
  statements : ∀ s ∈ p.statements, s.Genuine

section Derivations

variable {n : ℕ} {ts : List Token}

lemma Derives.genuine {l : Level} {e : Expression} (h : Derives l n ts e)
    (ht : ∀ t ∈ ts, t.Formed) : e.Genuine := by
  have hbinary : ∀ {op : Token} {ts us : List Token} {a b : Expression},
      ((∀ t ∈ ts, t.Formed) → a.Genuine) → ((∀ t ∈ us, t.Formed) → b.Genuine) →
      (∀ t ∈ ts ++ op :: us, t.Formed) → (Expression.binary op a b).Genuine := by
    intro op ts us a b iha ihb ht
    rw [List.forall_mem_append, List.forall_mem_cons] at ht
    exact .binary ht.2.1 (iha ht.1) (ihb ht.2.2)
  induction h with
  | literal hk => exact .literal (ht _ (by simp)) hk
  | access _ => exact .access (ht _ (by simp))
  | not _ _ ih =>
    rw [List.forall_mem_cons] at ht
    exact .unary ht.1 (ih ht.2)
  | parens _ _ _ ih =>
    rw [List.forall_mem_cons, List.forall_mem_append] at ht
    exact ih ht.2.1
  | ofFactor _ ih => exact ih ht
  | multiply _ _ _ iha ihb => exact hbinary iha ihb ht
  | ofTerm _ ih => exact ih ht
  | sign _ _ ih =>
    rw [List.forall_mem_cons] at ht
    exact .unary ht.1 (ih ht.2)
  | add _ _ _ iha ihb => exact hbinary iha ihb ht
  | ofSimple _ ih => exact ih ht
  | relate _ _ _ iha ihb => exact hbinary iha ihb ht

lemma DerivesItem.genuine {t : Token} {i : PrintItem} (h : DerivesItem t i) (ht : t.Formed) :
    i.Genuine := by
  have hprinted : ∀ k ∈ [TokenKind.stringLiteral, .charLiteral], k ∈ TokenKind.literal := by decide
  cases h with
  | literal hk => exact .literal ht (hprinted _ hk)
  | access _ => exact .access ht

lemma DerivesItems.genuine {is : List PrintItem} (h : DerivesItems ts is)
    (ht : ∀ t ∈ ts, t.Formed) : ∀ i ∈ is, i.Genuine := by
  induction h with
  | nil => simp
  | cons _ hi _ ih =>
    rw [List.forall_mem_cons, List.forall_mem_cons] at ht
    exact List.forall_mem_cons.mpr ⟨hi.genuine ht.2.1, ih ht.2.2⟩

lemma DerivesStatement.genuine {s : Statement} (h : DerivesStatement n ts s)
    (ht : ∀ t ∈ ts, t.Formed) : s.Genuine := by
  cases h with
  | assignment _ _ he =>
    rw [List.forall_mem_cons, List.forall_mem_cons] at ht
    exact .assignment ht.1 (he.genuine ht.2.2)
  | print hk _ hi hs _ =>
    simp only [List.forall_mem_cons, List.forall_mem_append] at ht
    exact .print ht.1 hk (List.forall_mem_cons.mpr ⟨hi.genuine ht.2.2.1, hs.genuine ht.2.2.2.1⟩)
  | read hk _ _ _ =>
    simp only [List.forall_mem_cons] at ht
    exact .read ht.1 hk ht.2.2.1

lemma DerivesBody.genuine {ss : List Statement} (h : DerivesBody n ts ss)
    (ht : ∀ t ∈ ts, t.Formed) : ∀ s ∈ ss, s.Genuine := by
  induction h with
  | nil => simp
  | last hs => exact List.forall_mem_singleton.mpr (hs.genuine ht)
  | cons hs _ _ ih =>
    rw [List.forall_mem_append, List.forall_mem_cons] at ht
    exact List.forall_mem_cons.mpr ⟨hs.genuine ht.1, ih ht.2.2⟩

end Derivations

/-- The program of a text is made of its tokens. -/
lemma genuine_of_parse {source : String} {p : Program} (h : parse source = .ok p) :
    p.Genuine := by
  obtain ⟨n, ts, hts, hd⟩ := exists_tokenize_of_parse h
  have hformed : ∀ t ∈ ts, t.kind ≠ .eof → t.Formed := Cursor.formed_of_tokenize hts
  obtain @⟨_, name, _, _, _, _, _, _, us, _, -, hn, -, -, hs, -, -, -⟩ := hd
  have hname : name.Formed := hformed name (by simp) (by simp [hn])
  have hus : ∀ t ∈ us, t.Formed := fun t ht => hformed t (by simp [ht]) (hs.kind_ne_eof t ht)
  exact ⟨Lexeme.Formed.notMem_newline hname, hs.genuine hus⟩

/-! ### The headings of a program -/

lemma Token.Formed.onLines_accessNode {t : Token} (ht : t.Formed) : t.accessNode.OnLines :=
  .of_children (ht.notMem_newline_enclosed (a := "VariableAccess(") (by decide)) nofun

lemma Token.Formed.onLines_literalNode {t : Token} (ht : t.Formed)
    (hk : t.kind ∈ TokenKind.literal) : t.literalNode.OnLines :=
  .of_children (ht.notMem_newline_literalNode hk) nofun

lemma Expression.Genuine.onLines {e : Expression} (h : e.Genuine) : e.toNode.OnLines := by
  induction h with
  | literal ht hk => exact ht.onLines_literalNode hk
  | access ht => exact ht.onLines_accessNode
  | unary hop _ ih =>
    refine .of_children (hop.notMem_newline_enclosed (a := "UnaryOp(") (by decide)) ?_
    exact List.forall_mem_singleton.mpr ih
  | binary hop _ _ iha ihb =>
    refine .of_children (hop.notMem_newline_enclosed (a := "BinaryOp(") (by decide)) ?_
    exact List.forall_mem_cons.mpr ⟨iha, List.forall_mem_singleton.mpr ihb⟩

lemma PrintItem.Genuine.onLines {i : PrintItem} (h : i.Genuine) : i.toNode.OnLines := by
  cases h with
  | literal ht hk => exact ht.onLines_literalNode hk
  | access ht => exact ht.onLines_accessNode

lemma Statement.Genuine.onLines {s : Statement} (h : s.Genuine) : s.toNode.OnLines := by
  cases h with
  | assignment ht he =>
    refine .of_children (show '\n' ∉ "Assignment".toList by decide) ?_
    exact List.forall_mem_cons.mpr ⟨ht.onLines_accessNode, List.forall_mem_singleton.mpr he.onLines⟩
  | print ht _ hs =>
    refine .of_children (show '\n' ∉ "Print".toList by decide) ?_
    exact List.forall_mem_map.mpr fun i hi => (hs i hi).onLines
  | read ht _ hu =>
    refine .of_children (show '\n' ∉ "Read".toList by decide) ?_
    exact List.forall_mem_singleton.mpr hu.onLines_accessNode

lemma Program.Genuine.onLines {p : Program} (h : p.Genuine) : p.toNode.OnLines := by
  refine .of_children (show '\n' ∉ ("Program: " ++ p.name).toList from ?_) ?_
  · rw [String.toList_append, List.mem_append, not_or]
    exact ⟨by decide, h.name⟩
  · have hblock : '\n' ∉ "StatementList".toList := by decide
    refine List.forall_mem_singleton.mpr (.of_children hblock ?_)
    exact List.forall_mem_map.mpr fun s hs => (h.statements s hs).onLines

/-! ### Programs with the same headings -/

section SameHeadings

open Node Token

lemma forall₂_of_sameHeadings {α : Type} {toNode : α → Node} {P : α → Prop} {S : α → α → Prop}
    (hS : ∀ a b, P a → P b → (toNode a).SameHeadings (toNode b) → S a b) {as bs : List α}
    (has : ∀ a ∈ as, P a) (hbs : ∀ b ∈ bs, P b)
    (h : List.Forall₂ SameHeadings (as.map toNode) (bs.map toNode)) : List.Forall₂ S as bs := by
  rw [List.forall₂_map_left_iff, List.forall₂_map_right_iff] at h
  induction h with
  | nil => exact .nil
  | cons hab _ ih =>
    rw [List.forall_mem_cons] at has hbs
    exact .cons (hS _ _ has.1 hbs.1 hab) (ih has.2 hbs.2)

lemma Expression.Genuine.alike {e e' : Expression} (he : e.Genuine) (he' : e'.Genuine)
    (h : e.toNode.SameHeadings e'.toNode) : e.Alike Interchangeable e' := by
  have hinitial := h.initial_eq
  induction he generalizing e' with
  | literal ht hk =>
    cases he' with
    | literal hu hk' => exact .literal (ht.interchangeable_of_literalNode hu hk hk' h.heading_eq)
    | _ => simp [toNode, literalNode, accessNode, initial] at hinitial
  | access ht =>
    cases he' with
    | access hu => exact .access (ht.interchangeable_of_accessNode hu h.heading_eq)
    | _ => simp [toNode, literalNode, accessNode, initial] at hinitial
  | unary hop _ ih =>
    cases he' with
    | unary hop' he' =>
      have hlexeme := append_append_cancel (a := "UnaryOp(") (b := ")") h.heading_eq
      obtain ⟨hoperand, -⟩ := List.forall₂_cons.mp h.children
      exact .unary (hop.interchangeable_of_lexeme hop' hlexeme)
        (ih he' hoperand hoperand.initial_eq)
    | _ => simp [toNode, literalNode, accessNode, initial] at hinitial
  | binary hop _ _ iha ihb =>
    cases he' with
    | binary hop' ha' hb' =>
      have hlexeme := append_append_cancel (a := "BinaryOp(") (b := ")") h.heading_eq
      obtain ⟨hleft, hrest⟩ := List.forall₂_cons.mp h.children
      obtain ⟨hright, -⟩ := List.forall₂_cons.mp hrest
      exact .binary (hop.interchangeable_of_lexeme hop' hlexeme)
        (iha ha' hleft hleft.initial_eq) (ihb hb' hright hright.initial_eq)
    | _ => simp [toNode, literalNode, accessNode, initial] at hinitial

lemma PrintItem.Genuine.alike {i i' : PrintItem} (hi : i.Genuine) (hi' : i'.Genuine)
    (h : i.toNode.SameHeadings i'.toNode) : i.Alike Interchangeable i' := by
  have hinitial := h.initial_eq
  cases hi with
  | literal ht hk =>
    cases hi' with
    | literal hu hk' => exact .literal (ht.interchangeable_of_literalNode hu hk hk' h.heading_eq)
    | access hu => simp [toNode, literalNode, accessNode, initial] at hinitial
  | access ht =>
    cases hi' with
    | literal hu hk' => simp [toNode, literalNode, accessNode, initial] at hinitial
    | access hu => exact .access (ht.interchangeable_of_accessNode hu h.heading_eq)

lemma Statement.Genuine.alike {s s' : Statement} (hs : s.Genuine) (hs' : s'.Genuine)
    (h : s.toNode.SameHeadings s'.toNode) : s.Alike Interchangeable s' := by
  have hinitial := h.initial_eq
  cases hs with
  | assignment ht he =>
    cases hs' with
    | assignment hu he' =>
      obtain ⟨htarget, hrest⟩ := List.forall₂_cons.mp h.children
      obtain ⟨hvalue, -⟩ := List.forall₂_cons.mp hrest
      exact .assignment (ht.interchangeable_of_accessNode hu htarget.heading_eq)
        (he.alike he' hvalue)
    | _ => simp [toNode, initial] at hinitial
  | print ht hk hitems =>
    cases hs' with
    | print hu hk' hitems' =>
      exact .print (ht.interchangeable_of_keyword hu (by simp [hk]) (hk.trans hk'.symm))
        (forall₂_of_sameHeadings (fun _ _ => PrintItem.Genuine.alike) hitems hitems' h.children)
    | _ => simp [toNode, initial] at hinitial
  | read ht hk htarget =>
    cases hs' with
    | read hu hk' htarget' =>
      obtain ⟨hheading, -⟩ := List.forall₂_cons.mp h.children
      exact .read (ht.interchangeable_of_keyword hu (by simp [hk]) (hk.trans hk'.symm))
        (htarget.interchangeable_of_accessNode htarget' hheading.heading_eq)
    | _ => simp [toNode, initial] at hinitial

/-- Programs with the same headings are equal up to places and spellings of constants. -/
lemma Program.Genuine.alike {p p' : Program} (hp : p.Genuine) (hp' : p'.Genuine)
    (h : p.toNode.SameHeadings p'.toNode) : p.Alike Interchangeable p' := by
  have hname : p.name = p'.name :=
    append_append_cancel (a := "Program: ") (b := "") (congrArg (· ++ "") h.heading_eq)
  obtain ⟨hbody, -⟩ := List.forall₂_cons.mp h.children
  have hstatements := forall₂_of_sameHeadings (fun _ _ => Statement.Genuine.alike) hp.statements
    hp'.statements hbody.children
  have hplace : ∀ q q',
      Interchangeable ⟨.programKw, "", .absent, q⟩ ⟨.programKw, "", .absent, q'⟩ :=
    fun _ _ => ⟨rfl, rfl, fun _ => rfl⟩
  obtain ⟨q, name, b, ss⟩ := p
  obtain ⟨q', name', b', ss'⟩ := p'
  obtain rfl : name = name' := hname
  exact .mk (hplace q q') (hplace b b') hstatements

end SameHeadings

/-- The outline of a program tells the program. If the programs of two texts have equal outlines,
then they are equal up to places and spellings of constants. An outline has one line for each node,
in the order in which a node comes before those below it, with two spaces for each level in front of
its heading, and the heading stands on this line. -/
theorem dump_tells_program {source source' : String} {p p' : Program}
    (h : parse source = .ok p) (h' : parse source' = .ok p') :
    (p.toNode.dump 0 = p'.toNode.dump 0 → p.Alike Token.Interchangeable p') ∧
    (p.toNode.dump 0).toList = (p.toNode.preorder 0).flatMap (fun x =>
      List.replicate (2 * x.1) ' ' ++ x.2.heading.toList ++ ['\n']) ∧
    ∀ x ∈ p.toNode.preorder 0,
      '\n' ∉ x.2.heading.toList ∧ x.2.heading.toList.head? ≠ some ' ' := by
  have hp := genuine_of_parse h
  have hp' := genuine_of_parse h'
  refine ⟨fun hdump => ?_, ?_, fun x hx => ⟨hp.onLines 0 x hx, x.2.head?_heading_ne_space⟩⟩
  · exact hp.alike hp' (hp.onLines.sameHeadings_of_dump_eq hp'.onLines 0 hdump)
  · refine (Node.toList_dump 0 p.toNode).trans ?_
    rw [Node.entries, List.flatMap_singleton, List.flatMap_map]
    rfl

theorem dump_tells_respelled_constants :
    ∃ p p', parse "برنامج س;\x7bع=-007+0.50;اطبع(ع)\x7d." = .ok p ∧
      parse "برنامج س; \x7b ع = -7 + 00.5; اطبع(ع); \x7d." = .ok p' ∧ p ≠ p' ∧
      p.toNode.dump 0 = p'.toNode.dump 0 ∧ p.Alike Token.Interchangeable p' := by
  have hne : (parse "برنامج س;\x7bع=-007+0.50;اطبع(ع)\x7d.").toOption ≠
      (parse "برنامج س; \x7b ع = -7 + 00.5; اطبع(ع); \x7d.").toOption := by
    decide +kernel
  have hdump : (parse "برنامج س;\x7bع=-007+0.50;اطبع(ع)\x7d.").map (fun p => p.toNode.dump 0) =
      (parse "برنامج س; \x7b ع = -7 + 00.5; اطبع(ع); \x7d.").map fun p => p.toNode.dump 0 := by
    decide +kernel
  cases h : parse "برنامج س;\x7bع=-007+0.50;اطبع(ع)\x7d." with
  | error e =>
    rw [h] at hne hdump
    cases h' : parse "برنامج س; \x7b ع = -7 + 00.5; اطبع(ع); \x7d." with
    | error e' => exact absurd rfl (h' ▸ hne)
    | ok p' => simp [h', Except.map] at hdump
  | ok p =>
    rw [h] at hne hdump
    cases h' : parse "برنامج س; \x7b ع = -7 + 00.5; اطبع(ع); \x7d." with
    | error e' => simp [h', Except.map] at hdump
    | ok p' =>
      rw [h'] at hne hdump
      have heq : p.toNode.dump 0 = p'.toNode.dump 0 := Except.ok.inj hdump
      refine ⟨p, p', rfl, rfl, fun hpp => hne (by rw [hpp]), heq, ?_⟩
      exact (dump_tells_program h h').1 heq

end Barnamaj
