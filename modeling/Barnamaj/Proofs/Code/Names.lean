import Barnamaj.Code.Instruction
import Barnamaj.Proofs.Parser.Acceptance

/-!
# Names of variables and of temporaries

Variables and temporaries share one store, in which they are known by their names. Two temporaries
have different names, and no variable of a source text has the name of a temporary: a name in a text
is made of letters and digits, while that of a temporary has an underscore. The variables that an
expression reads are the names among its tokens, in their order (`Derives.filter_isName`).
-/

namespace Barnamaj

/-! ### Temporaries -/

/-- The names of temporaries. -/
def IsTemporaryName (name : String) : Prop :=
  ∃ k : ℕ, name = (Operand.temporary k).name

lemma toString_natCast_injective {j k : ℕ} (h : toString (j : ℤ) = toString (k : ℤ)) : j = k := by
  have hdigits : Nat.toDigits 10 j = Nat.toDigits 10 k := by
    rw [← Nat.toList_repr, ← Nat.toList_repr]
    exact congrArg String.toList h
  have hvalue := congrArg (Nat.ofDigitChars 10 · 0) hdigits
  simpa using hvalue

lemma temporary_name_injective {j k : ℕ}
    (h : (Operand.temporary j).name = (Operand.temporary k).name) : j = k := by
  apply toString_natCast_injective
  have hlist := congrArg String.toList h
  simp only [Operand.name, String.toList_append, List.append_cancel_left_eq] at hlist
  exact String.toList_injective hlist

lemma not_isTemporaryName {name : String} (h : ∀ x ∈ name.toList, Lexeme.isWordPart x = true) :
    ¬ IsTemporaryName name := by
  rintro ⟨k, rfl⟩
  have hmem : '_' ∈ (Operand.temporary k).name.toList := by
    simp [Operand.name, String.toList_append]
  have hpart := h '_' hmem
  revert hpart
  decide

/-! ### Variables -/

/-- The tokens of the variables that an expression reads. -/
def Expression.reads : Expression → List Token
  | .literal _ => []
  | .access t => [t]
  | .unary _ operand => operand.reads
  | .binary _ left right => left.reads ++ right.reads

/-- The tokens of the variables that an item reads. -/
def PrintItem.reads : PrintItem → List Token
  | .literal _ => []
  | .access t => [t]

/-- The tokens of the variables that a statement reads. -/
def Statement.reads : Statement → List Token
  | .assignment _ e => e.reads
  | .print _ items => items.flatMap PrintItem.reads
  | .read _ _ => []

/-- The token is a name among those given. -/
def Token.IsNameIn (ts : List Token) (t : Token) : Prop :=
  t ∈ ts ∧ t.kind = .identifier

variable {n : Nat} {ts us : List Token}

lemma Token.IsNameIn.mono {t : Token} (h : t.IsNameIn ts) (hsub : ts ⊆ us) : t.IsNameIn us :=
  ⟨hsub h.1, h.2⟩

/-- Whether the token is a name. -/
def Token.isName (t : Token) : Bool := t.kind = .identifier

lemma Token.isName_eq_false {t : Token} {k : TokenKind} (h : t.kind = k) (hk : k ≠ .identifier) :
    t.isName = false := by
  simp [isName, h, hk]

lemma Token.isName_of_mem {t : Token} {kinds : List TokenKind} (h : t.kind ∈ kinds)
    (hk : .identifier ∉ kinds) : t.isName = false :=
  isName_eq_false rfl (ne_of_mem_of_not_mem h hk)

lemma Derives.filter_isName_binary {op : Token} {a b : Expression}
    (ha : ts.filter Token.isName = a.reads) (hop : op.isName = false)
    (hb : us.filter Token.isName = b.reads) :
    (ts ++ op :: us).filter Token.isName = (Expression.binary op a b).reads := by
  rw [List.filter_append, List.filter_cons_of_neg (by simp [hop]), ha, hb]
  rfl

/-- The names in an expression are those that it reads, from left to right. -/
lemma Derives.filter_isName {l : Level} {e : Expression} (h : Derives l n ts e) :
    ts.filter Token.isName = e.reads := by
  induction h with
  | literal ht =>
    rw [List.filter_cons_of_neg (by simp [Token.isName_of_mem ht (by decide)])]
    rfl
  | access ht =>
    rw [List.filter_cons_of_pos (by simp [Token.isName, ht])]
    rfl
  | not hop _ ih =>
    rw [List.filter_cons_of_neg (by simp [Token.isName_eq_false hop]), ih]
    rfl
  | parens hl _ hr ih =>
    rw [List.filter_cons_of_neg (by simp [Token.isName_eq_false hl]), List.filter_append, ih,
      List.filter_cons_of_neg (by simp [Token.isName_eq_false hr]), List.filter_nil,
      List.append_nil]
  | ofFactor _ ih => exact ih
  | multiply _ hop _ iha ihb =>
    exact filter_isName_binary iha (Token.isName_of_mem hop (by decide)) ihb
  | ofTerm _ ih => exact ih
  | sign hop _ ih =>
    rw [List.filter_cons_of_neg (by simp [Token.isName_of_mem hop (by decide)]), ih]
    rfl
  | add _ hop _ iha ihb =>
    exact filter_isName_binary iha (Token.isName_of_mem hop (by decide)) ihb
  | ofSimple _ ih => exact ih
  | relate _ hop _ iha ihb =>
    exact filter_isName_binary iha (Token.isName_of_mem hop (by decide)) ihb

lemma DerivesItem.filter_isName {t : Token} {i : PrintItem} (h : DerivesItem t i) :
    [t].filter Token.isName = i.reads := by
  cases h with
  | literal ht =>
    rw [List.filter_cons_of_neg (by simp [Token.isName_of_mem ht (by decide)])]
    rfl
  | access ht =>
    rw [List.filter_cons_of_pos (by simp [Token.isName, ht])]
    rfl

lemma DerivesItems.filter_isName {is : List PrintItem} (h : DerivesItems ts is) :
    ts.filter Token.isName = is.flatMap PrintItem.reads := by
  induction h with
  | nil => rfl
  | @cons comma t ts i is hc ht _ ih =>
    rw [List.filter_cons_of_neg (by simp [Token.isName_eq_false hc]), ← List.singleton_append,
      List.filter_append, ht.filter_isName, ih, List.flatMap_cons]

lemma Token.isNameIn_of_mem_filter {t : Token} (h : t ∈ ts.filter Token.isName) :
    t.IsNameIn ts := by
  simpa [Token.IsNameIn, Token.isName] using h

lemma Derives.forall_reads {l : Level} {e : Expression} (h : Derives l n ts e) :
    ∀ t ∈ e.reads, t.IsNameIn ts := by
  rw [← h.filter_isName]
  exact fun _ => Token.isNameIn_of_mem_filter

lemma DerivesItem.forall_reads {u : Token} {i : PrintItem} (h : DerivesItem u i) :
    ∀ t ∈ i.reads, t.IsNameIn [u] := by
  rw [← h.filter_isName]
  exact fun _ => Token.isNameIn_of_mem_filter

lemma DerivesItems.forall_reads {is : List PrintItem} (h : DerivesItems ts is) :
    ∀ t ∈ is.flatMap PrintItem.reads, t.IsNameIn ts := by
  rw [← h.filter_isName]
  exact fun _ => Token.isNameIn_of_mem_filter

lemma DerivesStatement.forall_reads {s : Statement} (h : DerivesStatement n ts s) :
    ∀ t ∈ s.reads, t.IsNameIn ts := by
  cases h with
  | assignment _ _ he =>
    exact fun t ht => (he.forall_reads t ht).mono fun x hx => by simp [hx]
  | @print keyword l u r ts i is _ _ hi hs _ =>
    intro t ht
    rw [Statement.reads, List.flatMap_cons] at ht
    rcases List.mem_append.mp ht with ht | ht
    · exact (hi.forall_reads t ht).mono (by simp)
    · exact (hs.forall_reads t ht).mono fun x hx => by simp [hx]
  | read _ _ _ _ => simp [Statement.reads]

lemma DerivesBody.forall_reads {statements : List Statement} (h : DerivesBody n ts statements) :
    ∀ s ∈ statements, ∀ t ∈ s.reads, t.IsNameIn ts := by
  induction h with
  | nil => simp
  | last hs => simpa using hs.forall_reads
  | cons hs _ _ ih =>
    rw [List.forall_mem_cons]
    refine ⟨fun t ht => (hs.forall_reads t ht).mono (List.subset_append_left _ _),
      fun s hs t ht => (ih s hs t ht).mono fun x hx => by simp [hx]⟩

/-- No variable that a parsed program reads has the name of a temporary. -/
lemma not_isTemporaryName_of_parse {source : String} {p : Program} (h : parse source = .ok p) :
    ∀ s ∈ p.statements, ∀ t ∈ s.reads, ¬ IsTemporaryName t.lexeme := by
  obtain ⟨n, ts, q, q', ho, hm, hd, -⟩ := exists_derives_of_parse h
  obtain @⟨keyword, name, semicolon, l, r, dot, ending, n, us, statements, -, -, -, -, hs, -, -, -⟩ :=
    hd
  intro s hs' t ht
  obtain ⟨hmem, hk⟩ := hs.forall_reads s hs' t ht
  have hformed := hm.formed ho t (by simp [hmem]) (by simp [hk])
  exact not_isTemporaryName (Lexeme.Formed.eq_of_identifier hformed hk).1

end Barnamaj
