import Barnamaj.Proofs.Code.Simulation
import Barnamaj.Proofs.Decimal.RealText
import Barnamaj.Proofs.Decimal.Rounding
import Barnamaj.Proofs.Parser.Readings

/-!
# The forms of compiled code

Every instruction of compiled code has one of few forms, which its operation decides up to the
number of arguments (`Instruction.Shaped`). Its operands are temporaries, names of the source text
and constants of the source text (`Operand.Formed`).
-/

namespace Barnamaj

open Text

/-! ### Instructions -/

/-- The forms of the instructions of compiled code, with a condition on the operands. -/
inductive Instruction.Shaped (P : Operand → Prop) : Instruction → Prop where
  | unary {op : OpCode} {r a : Operand} (hop : op.computes = true) (hr : P r) (ha : P a) :
      Shaped P { op, result := some r, arg1 := some a }
  | binary {op : OpCode} {r a b : Operand} (hop : op.computes = true) (hr : P r) (ha : P a)
      (hb : P b) : Shaped P { op, result := some r, arg1 := some a, arg2 := some b }
  | assign {r a : Operand} (hr : P r) (ha : P a) :
      Shaped P { op := .assign, result := some r, arg1 := some a }
  | print {a : Operand} (ha : P a) : Shaped P { op := .print, arg1 := some a }
  | read {r : Operand} (hr : P r) : Shaped P { op := .read, result := some r }
  | halt : Shaped P { op := .halt }

/-- The operands of a token, as a name or as a constant, meet a condition. -/
def Token.Admits (P : Operand → Prop) (t : Token) : Prop :=
  (t.kind = .identifier → P (.named t.lexeme)) ∧
    (t.kind ∈ TokenKind.literal → P (.constant t.value (some t.kind)))

variable {P : Operand → Prop}

lemma Instruction.Shaped.forall_operands {i : Instruction} (h : i.Shaped P) :
    ∀ o ∈ i.operands, P o := by
  cases h with
  | unary _ hr ha => simp [operands, hr, ha]
  | binary _ hr ha hb => simp [operands, hr, ha, hb]
  | assign hr ha => simp [operands, hr, ha]
  | print ha => simp [operands, ha]
  | read hr => simp [operands, hr]
  | halt => simp [operands]

/-! ### Steps of the generator -/

namespace Generate

variable {α β : Type} {J : Instruction → Prop} {Q : α → Prop} {R : β → Prop} {m : Generate α}
  {f : α → Generate β}

/-- If the step does not stop the generator, it appends only instructions that meet a condition, and
its answer meets another one. -/
def Emits (J : Instruction → Prop) (Q : α → Prop) (m : Generate α) : Prop :=
  ∀ ⦃g a g'⦄, m g = .ok a g' →
    Q a ∧ ∃ c, g'.instructions = g.instructions ++ c ∧ ∀ i ∈ c, J i

lemma emits_pure {a : α} (h : Q a) : Emits J Q (pure a) := by
  intro g _ g' heq
  cases heq
  exact ⟨h, [], by simp, by simp⟩

lemma emits_emit {i : Instruction} (h : J i) : Emits J (fun _ => True) (emit i) := by
  intro g _ g' heq
  cases heq
  exact ⟨trivial, [i], rfl, by simpa using h⟩

lemma emits_newTemporary : Emits J (fun o => ∃ k : ℕ, o = .temporary k) newTemporary := by
  intro g _ g' heq
  cases heq
  exact ⟨⟨g.temporaries, rfl⟩, [], by simp, by simp⟩

lemma emits_opCode (operator : Token) :
    Emits J (fun op => op.computes = true) (opCode operator) := by
  intro g op g' heq
  obtain ⟨rfl, hop⟩ := opCode_eq_ok heq
  exact ⟨TokenKind.computes_of_operation? hop, [], by simp, by simp⟩

lemma Emits.bind (hm : Emits J Q m) (hf : ∀ a, Q a → Emits J R (f a)) : Emits J R (m >>= f) := by
  intro g b g' heq
  obtain ⟨a, g₁, h₁, h₂⟩ := bind_eq_ok heq
  obtain ⟨ha, c, hc, hcall⟩ := hm h₁
  obtain ⟨hb, c', hc', hcall'⟩ := hf a ha h₂
  refine ⟨hb, c ++ c', ?_, List.forall_mem_append.mpr ⟨hcall, hcall'⟩⟩
  rw [hc', hc, List.append_assoc]

/-! ### Code -/

variable {l : Level} {n : Nat} {ts : List Token}

lemma emits_unary (hP : ∀ k : ℕ, P (.temporary k)) {op : Token} {e : Expression}
    (he : Emits (Instruction.Shaped P) P (expression e.toNode)) :
    Emits (Instruction.Shaped P) P (expression (Expression.unary op e).toNode) := by
  refine he.bind fun a ha => emits_newTemporary.bind ?_
  rintro _ ⟨k, rfl⟩
  exact (emits_opCode op).bind fun _ hop => (emits_emit (.unary hop (hP k) ha)).bind
    fun _ _ => emits_pure (hP k)

lemma emits_binary (hP : ∀ k : ℕ, P (.temporary k)) {op : Token} {a b : Expression}
    (ha : Emits (Instruction.Shaped P) P (expression a.toNode))
    (hb : Emits (Instruction.Shaped P) P (expression b.toNode)) :
    Emits (Instruction.Shaped P) P (expression (Expression.binary op a b).toNode) := by
  refine ha.bind fun a ha => hb.bind fun b hb => emits_newTemporary.bind ?_
  rintro _ ⟨k, rfl⟩
  exact (emits_opCode op).bind fun _ hop => (emits_emit (.binary hop (hP k) ha hb)).bind
    fun _ _ => emits_pure (hP k)

lemma emits_expression (hP : ∀ k : ℕ, P (.temporary k)) {e : Expression} (h : Derives l n ts e)
    (ht : ∀ t ∈ ts, t.Admits P) : Emits (Instruction.Shaped P) P (expression e.toNode) := by
  induction h with
  | literal hk => exact emits_pure ((ht _ (by simp)).2 hk)
  | access hk => exact emits_pure ((ht _ (by simp)).1 hk)
  | not _ _ ih => exact emits_unary hP (ih (List.forall_mem_cons.mp ht).2)
  | parens _ _ _ ih =>
    rw [List.forall_mem_cons, List.forall_mem_append] at ht
    exact ih ht.2.1
  | ofFactor _ ih => exact ih ht
  | multiply _ _ _ iha ihb =>
    rw [List.forall_mem_append, List.forall_mem_cons] at ht
    exact emits_binary hP (iha ht.1) (ihb ht.2.2)
  | ofTerm _ ih => exact ih ht
  | sign _ _ ih => exact emits_unary hP (ih (List.forall_mem_cons.mp ht).2)
  | add _ _ _ iha ihb =>
    rw [List.forall_mem_append, List.forall_mem_cons] at ht
    exact emits_binary hP (iha ht.1) (ihb ht.2.2)
  | ofSimple _ ih => exact ih ht
  | relate _ _ _ iha ihb =>
    rw [List.forall_mem_append, List.forall_mem_cons] at ht
    exact emits_binary hP (iha ht.1) (ihb ht.2.2)

/-- An item that is printed has no code but the instruction that prints it. -/
lemma emits_printItem {t : Token} {i : PrintItem} (h : DerivesItem t i) (ht : t.Admits P) :
    Emits (Instruction.Shaped P) P (expression i.toNode) := by
  have hprinted : ∀ k ∈ [TokenKind.stringLiteral, .charLiteral], k ∈ TokenKind.literal := by decide
  cases h with
  | literal hk => exact emits_pure (ht.2 (hprinted _ hk))
  | access hk => exact emits_pure (ht.1 hk)

lemma emits_printItems_cons {i : PrintItem} {is : List PrintItem}
    (hi : Emits (Instruction.Shaped P) P (expression i.toNode))
    (his : Emits (Instruction.Shaped P) (fun _ => True) (printItems (is.map PrintItem.toNode))) :
    Emits (Instruction.Shaped P) (fun _ => True)
      (printItems ((i :: is).map PrintItem.toNode)) :=
  hi.bind fun _ ha => (emits_emit (.print ha)).bind fun _ _ => his

lemma emits_printItems {is : List PrintItem} (h : DerivesItems ts is)
    (ht : ∀ t ∈ ts, t.Admits P) :
    Emits (Instruction.Shaped P) (fun _ => True) (printItems (is.map PrintItem.toNode)) := by
  induction h with
  | nil => exact emits_pure trivial
  | cons _ hi _ ih =>
    rw [List.forall_mem_cons, List.forall_mem_cons] at ht
    exact emits_printItems_cons (emits_printItem hi ht.2.1) (ih ht.2.2)

lemma emits_statement (hP : ∀ k : ℕ, P (.temporary k)) {s : Statement}
    (h : DerivesStatement n ts s) (ht : ∀ t ∈ ts, t.Admits P) :
    Emits (Instruction.Shaped P) (fun _ => True) (statement s.toNode) := by
  cases h with
  | @assignment target _ _ _ _ hk _ he =>
    rw [List.forall_mem_cons, List.forall_mem_cons] at ht
    have htarget : P (.named target.lexeme) := ht.1.1 hk
    rw [Statement.toNode, statement]
    exact (emits_expression hP he ht.2.2).bind fun _ ha => (emits_pure htarget).bind fun _ hr =>
      (emits_emit (.assign hr ha)).bind fun _ _ => emits_pure trivial
  | print _ _ hi his _ =>
    simp only [List.forall_mem_cons, List.forall_mem_append] at ht
    rw [Statement.toNode, statement]
    exact emits_printItems_cons (emits_printItem hi ht.2.2.1) (emits_printItems his ht.2.2.2.1)
  | @read _ _ target _ _ _ hk _ =>
    simp only [List.forall_mem_cons] at ht
    have htarget : P (.named target.lexeme) := ht.2.2.1.1 hk
    rw [Statement.toNode, statement]
    exact (emits_pure htarget).bind fun _ hr => (emits_emit (.read hr)).bind
      fun _ _ => emits_pure trivial

lemma emits_statements (hP : ∀ k : ℕ, P (.temporary k)) {ss : List Statement}
    (h : DerivesBody n ts ss) (ht : ∀ t ∈ ts, t.Admits P) :
    Emits (Instruction.Shaped P) (fun _ => True) (statements (ss.map Statement.toNode)) := by
  induction h with
  | nil =>
    rw [List.map_nil, statements]
    exact emits_pure trivial
  | last hs =>
    rw [List.map_cons, List.map_nil, statements, statements]
    exact (emits_statement hP hs ht).bind fun _ _ => emits_pure trivial
  | cons hs _ _ ih =>
    rw [List.forall_mem_append, List.forall_mem_cons] at ht
    rw [List.map_cons, statements]
    exact (emits_statement hP hs ht.1).bind fun _ _ => ih ht.2.2

end Generate

/-- Compiled code has instructions of the given forms only. A condition on its operands holds if it
holds of temporaries and of what the tokens of the source text stand for. -/
lemma shaped_of_compile {path source : String} {d : Declarations} {code : List Instruction}
    (hP : ∀ k : ℕ, P (.temporary k))
    (ht : ∀ ts, tokenize source = .ok ts → ∀ t ∈ ts, t.Admits P)
    (h : (compile path d source).outcome = .ok code) : ∀ i ∈ code, i.Shaped P := by
  obtain ⟨p, hp, hcode⟩ := compile_eq_ok h
  obtain ⟨n, ts, hts, hd⟩ := exists_tokenize_of_parse hp
  have hadmits := ht ts hts
  obtain ⟨g, hg, rfl⟩ := generateCode_eq_ok hcode
  obtain ⟨-, -, -, -, hbody, -, -, -⟩ := hd
  simp only [List.forall_mem_cons, List.forall_mem_append] at hadmits
  obtain ⟨-, c, hc, hshaped⟩ := Generate.emits_statements hP hbody hadmits.2.2.2.2.1 hg
  rw [hc, List.nil_append, List.forall_mem_append, List.forall_mem_singleton]
  exact ⟨hshaped, .halt⟩

/-! ### Operands -/

/-- The operands of compiled code. -/
inductive Operand.Formed : Operand → Prop where
  | named {c : Char} {cs : List Char} (hc : isLetter c = true)
      (hcs : ∀ x ∈ cs, Lexeme.isWordPart x = true) : Formed (.named (String.ofList (c :: cs)))
  | temporary (k : ℕ) : Formed (.temporary k)
  | integer (n : ℕ) : Formed (.constant (.int n) (some .integerLiteral))
  | real (m : ℕ) (e : ℤ) : Formed (.constant (.real (.finite false m e)) (some .realLiteral))
  | infinity : Formed (.constant (.real (.infinite false)) (some .realLiteral))
  | string {body : List Char} (hb : ∀ x ∈ body, Lexeme.isStringPart x = true) :
      Formed (.constant (.text (String.ofList body)) (some .stringLiteral))
  | character {c : Char} (hc : c ≠ '\n') :
      Formed (.constant (.text (String.ofList [c])) (some .charLiteral))
  | trueConstant : Formed (.constant (.bool true) (some .trueKw))
  | falseConstant : Formed (.constant (.bool false) (some .falseKw))

namespace Lexeme

variable {l : Lexeme}

lemma Formed.formed_named (h : l.Formed) (hk : l.kind = .identifier) :
    (Operand.named l.text).Formed := by
  cases h with
  | word hc hcs =>
    rw [text_ofWord]
    exact .named hc hcs
  | integer _ _ hl => rw [(ofInteger_eq_ok hl).1] at hk; cases hk
  | real _ _ _ hl => rw [(ofReal_eq_ok hl).1] at hk; cases hk
  | string _ => cases hk
  | character _ => cases hk
  | symbol hk' => exact absurd hk (ne_of_mem_of_not_mem (mem_symbols_of_lookup hk') (by decide))
  | operator hk' =>
    exact absurd hk
      (ne_of_mem_of_not_mem (List.mem_map_of_mem (f := Prod.fst) hk') (by decide))

/-- Of the words, only the two truth values are literals. -/
lemma formed_constant_ofWord {word : String} (hk : (ofWord word).kind ∈ TokenKind.literal) :
    (Operand.constant (ofWord word).value (some (ofWord word).kind)).Formed := by
  have htable : ∀ k ∈ TokenKind.keywords.map Prod.snd, k ∈ TokenKind.literal →
      k = .trueKw ∨ k = .falseKw := by
    decide
  cases hlookup : TokenKind.keywords.lookup word with
  | none =>
    simp only [ofWord, hlookup] at hk
    exact absurd hk (by decide)
  | some kind =>
    simp only [ofWord, hlookup] at hk ⊢
    obtain ⟨_, _, hl, -⟩ := List.lookup_eq_some_iff.mp hlookup
    have hmem : kind ∈ TokenKind.keywords.map Prod.snd := by
      rw [hl]
      simp
    rcases htable kind hmem hk with rfl | rfl
    · exact .trueConstant
    · exact .falseConstant

lemma formed_constant_ofInteger {digits : List Char} (h : ofInteger digits = .ok l) :
    (Operand.constant l.value (some l.kind)).Formed := by
  simp only [ofInteger] at h
  split_ifs at h
  cases h
  exact .integer _

lemma formed_constant_ofReal {whole fraction : List Char} (h : ofReal whole fraction = .ok l) :
    (Operand.constant l.value (some l.kind)).Formed := by
  simp only [ofReal] at h
  split_ifs at h
  cases h
  -- a number too large for a real constant is infinite
  rcases (Decimal.Binary64.roundsTo_ofDecimal (numeral (whole ++ fraction))
    (-fraction.length)).eq_infinite_or with hr | ⟨m, e, hr⟩
  · simp only [hr]
    exact .infinity
  · simp only [hr]
    exact .real m e

/-- A literal of a text stands for a constant of one of the forms. -/
lemma Formed.formed_constant (h : l.Formed) (hk : l.kind ∈ TokenKind.literal) :
    (Operand.constant l.value (some l.kind)).Formed := by
  have hsymbols : ∀ k ∈ TokenKind.symbols.map Prod.snd ++ operators.map Prod.fst,
      k ∉ TokenKind.literal := by
    decide
  cases h with
  | word _ _ => exact formed_constant_ofWord hk
  | integer _ _ hl => exact formed_constant_ofInteger hl
  | real _ _ _ hl => exact formed_constant_ofReal hl
  | string hb => exact .string hb
  | character hc => exact .character hc
  | symbol hk' =>
    exact absurd hk (hsymbols _ (List.mem_append_left _ (mem_symbols_of_lookup hk')))
  | operator hk' =>
    exact absurd hk (hsymbols _ (List.mem_append_right _ (List.mem_map_of_mem hk')))

end Lexeme

lemma admits_formed_of_tokenize {source : String} {ts : List Token}
    (h : tokenize source = .ok ts) : ∀ t ∈ ts, t.Admits Operand.Formed := by
  intro t ht
  refine ⟨fun hk => ?_, fun hk => ?_⟩
  · exact (Cursor.formed_of_tokenize h t ht (by simp [hk])).formed_named hk
  · have hne : t.kind ≠ .eof := ne_of_mem_of_not_mem hk (by decide)
    exact (Cursor.formed_of_tokenize h t ht hne).formed_constant hk

/-- The operands of the instructions, from the first one on. -/
def Instruction.operandsOf (code : List Instruction) : List Operand :=
  code.flatMap Instruction.operands

lemma formed_of_compile {path source : String} {d : Declarations} {code : List Instruction}
    (h : (compile path d source).outcome = .ok code) :
    ∀ o ∈ Instruction.operandsOf code, o.Formed := by
  intro o ho
  obtain ⟨i, hi, ho⟩ := List.mem_flatMap.mp ho
  have hshaped := shaped_of_compile .temporary (fun _ => admits_formed_of_tokenize) h i hi
  exact hshaped.forall_operands o ho

/-! ### Names of operands -/

/-- The decimal digits continue a word, but do not start one. -/
lemma isLetter_isWordPart_of_isDigit {c : Char} (h : c.isDigit = true) :
    isLetter c = false ∧ Lexeme.isWordPart c = true := by
  have htable : ∀ n ∈ List.range' 48 10,
      isLetter (Char.ofNat n) = false ∧ Lexeme.isWordPart (Char.ofNat n) = true := by
    decide +kernel
  simpa using htable c.toNat (Decimal.toNat_mem_range_of_isDigit h)

/-- The characters that stand in names but in no word. -/
def Operand.marks : List Char := ['_', '.', '+', '-', '"', ' ', '\n']

lemma notMem_marks_of_isWordPart {c : Char} (h : Lexeme.isWordPart c = true) :
    c ∉ Operand.marks := by
  have htable : Operand.marks.all (fun c => !Lexeme.isWordPart c) = true := by decide +kernel
  intro hc
  have hnot := List.all_eq_true.mp htable c hc
  rw [h] at hnot
  cases hnot

namespace Operand

lemma toList_toString_natCast (n : ℕ) : (toString (n : ℤ)).toList = Nat.toDigits 10 n :=
  Nat.toList_repr

lemma toList_name_named (cs : List Char) : (named (String.ofList cs)).name.toList = cs :=
  String.toList_ofList

lemma toList_name_temporary (k : ℕ) :
    (temporary k).name.toList = 'T' :: '_' :: Nat.toDigits 10 k := by
  rw [name, String.toList_append, toList_toString_natCast]
  rfl

lemma toList_name_integer (n : ℕ) :
    (constant (.int n) (some .integerLiteral)).name.toList = Nat.toDigits 10 n :=
  toList_toString_natCast n

lemma toList_name_string (body : List Char) :
    (constant (.text (String.ofList body)) (some .stringLiteral)).name.toList =
      '"' :: (body ++ ['"']) := by
  simp [name, Value.toText]

lemma toList_name_character (c : Char) :
    (constant (.text (String.ofList [c])) (some .charLiteral)).name.toList = [c] :=
  String.toList_ofList

end Operand

end Barnamaj
