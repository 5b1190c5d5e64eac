import Barnamaj.Proofs.Grammar.Derivation
import Mathlib.Computability.Language

/-!
# The grammar as languages

The lists of tokens that are derived at a level form a language. The rules recur on the left, but
the languages satisfy the equations of the extended notation, in which a chain of operators is a
repetition. These are what a parser follows, which reads a chain from its left end on.
-/

open scoped Computability

namespace Barnamaj

variable {kinds kinds' : List TokenKind} {K L : Language Token} {t : Token} {ts us : List Token}

/-! ### One token -/

/-- The words of one token, the kind of which is among those given. -/
def oneOf (kinds : List TokenKind) : Language Token :=
  {w | ∃ t : Token, t.kind ∈ kinds ∧ w = [t]}

lemma singleton_mem_oneOf (h : t.kind ∈ kinds) : [t] ∈ oneOf kinds :=
  ⟨t, h, rfl⟩

lemma mem_oneOf_mul_iff :
    ts ∈ oneOf kinds * L ↔ ∃ t us, ts = t :: us ∧ t.kind ∈ kinds ∧ us ∈ L := by
  rw [Language.mem_mul]
  constructor
  · rintro ⟨_, ⟨t, ht, rfl⟩, us, hu, rfl⟩
    exact ⟨t, us, rfl, ht, hu⟩
  · rintro ⟨t, us, rfl, ht, hu⟩
    exact ⟨[t], singleton_mem_oneOf ht, us, hu, rfl⟩

@[simp] lemma cons_mem_oneOf_mul_iff : t :: ts ∈ oneOf kinds * L ↔ t.kind ∈ kinds ∧ ts ∈ L := by
  simp [mem_oneOf_mul_iff]

/-- Every kind is that of some token. -/
lemma exists_mem_oneOf (h : kinds ≠ []) : ∃ w, w ∈ oneOf kinds := by
  obtain ⟨k, hk⟩ := List.exists_mem_of_ne_nil kinds h
  exact ⟨_, singleton_mem_oneOf (t := ⟨k, "", .absent, ⟨1, 1⟩⟩) hk⟩

lemma exists_mem_mul (hK : ∃ w, w ∈ K) (hL : ∃ w, w ∈ L) : ∃ w, w ∈ K * L := by
  obtain ⟨v, hv⟩ := hK
  obtain ⟨w, hw⟩ := hL
  exact ⟨v ++ w, Language.append_mem_mul hv hw⟩

lemma exists_mem_singleton_mul (k : TokenKind) (hL : ∃ w, w ∈ L) : ∃ w, w ∈ oneOf [k] * L :=
  exists_mem_mul (exists_mem_oneOf (List.cons_ne_nil _ _)) hL

/-! ### First tokens -/

/-- No word of the language starts with a token of the given kinds. -/
def Avoids (L : Language Token) (kinds : List TokenKind) : Prop :=
  ∀ t us, t :: us ∈ L → t.kind ∉ kinds

lemma Avoids.add (hK : Avoids K kinds) (hL : Avoids L kinds) : Avoids (K + L) kinds := by
  intro t us h
  rcases h with h | h
  · exact hK t us h
  · exact hL t us h

lemma avoids_oneOf_mul (h : ∀ k ∈ kinds', k ∉ kinds) (L : Language Token) :
    Avoids (oneOf kinds' * L) kinds := by
  intro t us hw
  exact h _ (cons_mem_oneOf_mul_iff.mp hw).1

/-- What follows a repetition may come first. -/
lemma Avoids.kstar_mul (h : ∀ k ∈ kinds', k ∉ kinds) (hK : Avoids K kinds) (L : Language Token) :
    Avoids ((oneOf kinds' * L)∗ * K) kinds := by
  rw [← Language.one_add_self_mul_kstar_eq_kstar, add_mul, one_mul, mul_assoc, mul_assoc]
  exact hK.add (avoids_oneOf_mul h _)

/-! ### Expressions -/

/-- The lists of tokens that are derived at a level. -/
def Level.words (l : Level) : Language Token :=
  {ts | ∃ n e, Derives l n ts e}

/-- The kinds of tokens that are factors by themselves. -/
def TokenKind.atom : List TokenKind :=
  .identifier :: TokenKind.literal

lemma TokenKind.notMem_atom_of_opening : ∀ k ∈ [TokenKind.lparen, .not], k ∉ TokenKind.atom := by
  decide

/-- The words of a factor that is more than one token, told by the token that opens it. -/
def openingWords : Language Token :=
  oneOf [.not] * Level.factor.words +
    oneOf [.lparen] * (Level.expression.words * oneOf [.rparen])

/-- The right-hand side of the rule for a level, in the extended notation. -/
def Level.rule : Level → Language Token
  | .factor => oneOf TokenKind.atom + openingWords
  | .term => Level.factor.words * (oneOf TokenKind.multiplicative * Level.factor.words)∗
  | .simple => (oneOf TokenKind.additive + 1) * Level.term.words *
      (oneOf TokenKind.additive * Level.term.words)∗
  | .expression => Level.simple.words * (oneOf TokenKind.relational * Level.simple.words + 1)

/-- A chain may have no operator. -/
lemma mem_mul_kstar (ht : ts ∈ K) : ts ∈ K * L∗ := by
  have hle : K ≤ K * L∗ := le_mul_of_one_le_right' one_le_kstar
  exact hle ht

/-- One more operand may stand behind a chain. -/
lemma append_mem_mul_kstar (ht : ts ∈ K * L∗) (hu : us ∈ L) : ts ++ us ∈ K * L∗ := by
  have hle : K * L∗ * L ≤ K * L∗ := by
    rw [mul_assoc]
    exact mul_le_mul_right kstar_mul_le_kstar K
  exact hle (Language.append_mem_mul ht hu)

lemma Derives.mem_rule {l : Level} {n : Nat} {e : Expression} (h : Derives l n ts e) :
    ts ∈ l.rule := by
  induction h with
  | literal ht => exact Or.inl (singleton_mem_oneOf (List.mem_cons_of_mem _ ht))
  | access ht => exact Or.inl (singleton_mem_oneOf (by simp [ht, TokenKind.atom]))
  | not hop he _ =>
    exact Or.inr (Or.inl (cons_mem_oneOf_mul_iff.mpr ⟨by simp [hop], _, _, he⟩))
  | parens hl he hr _ =>
    refine Or.inr (Or.inr (cons_mem_oneOf_mul_iff.mpr ⟨by simp [hl], ?_⟩))
    exact Language.append_mem_mul ⟨_, _, he⟩ (singleton_mem_oneOf (by simp [hr]))
  | ofFactor he _ => exact mem_mul_kstar ⟨_, _, he⟩
  | multiply _ hop hb iha _ =>
    exact append_mem_mul_kstar iha (cons_mem_oneOf_mul_iff.mpr ⟨hop, _, _, hb⟩)
  | ofTerm he _ =>
    apply mem_mul_kstar
    rw [add_mul, one_mul]
    exact Or.inr ⟨_, _, he⟩
  | sign hop he _ =>
    apply mem_mul_kstar
    rw [add_mul]
    exact Or.inl (cons_mem_oneOf_mul_iff.mpr ⟨hop, _, _, he⟩)
  | add _ hop hb iha _ =>
    exact append_mem_mul_kstar iha (cons_mem_oneOf_mul_iff.mpr ⟨hop, _, _, hb⟩)
  | ofSimple he _ =>
    simp only [Level.rule]
    rw [mul_add, mul_one]
    exact Or.inr ⟨_, _, he⟩
  | relate ha hop hb _ _ =>
    simp only [Level.rule]
    rw [mul_add]
    exact Or.inl (Language.append_mem_mul ⟨_, _, ha⟩
      (cons_mem_oneOf_mul_iff.mpr ⟨hop, _, _, hb⟩))

/-- The words of each level are those of its rule in the extended notation. -/
lemma Level.words_eq (l : Level) : l.words = l.rule := by
  refine le_antisymm ?_ ?_
  · rintro ts ⟨n, e, h⟩
    exact h.mem_rule
  cases l with
  | factor =>
    rintro ts (⟨t, ht, rfl⟩ | hn | hp)
    · rcases List.mem_cons.mp ht with hi | hl
      · exact ⟨_, _, .access hi⟩
      · exact ⟨_, _, .literal hl⟩
    · obtain ⟨op, us, rfl, hop, n, e, he⟩ := mem_oneOf_mul_iff.mp hn
      exact ⟨_, _, .not (List.mem_singleton.mp hop) he⟩
    · obtain ⟨l, us, rfl, hl, hu⟩ := mem_oneOf_mul_iff.mp hp
      obtain ⟨vs, ⟨n, e, he⟩, _, ⟨r, hr, rfl⟩, rfl⟩ := Language.mem_mul.mp hu
      exact ⟨_, _, .parens (List.mem_singleton.mp hl) he (List.mem_singleton.mp hr)⟩
  | term =>
    refine mul_kstar_le ?_ ?_
    · rintro ts ⟨n, e, he⟩
      exact ⟨n, e, he.ofFactor⟩
    · rintro _ ⟨ts, ⟨m, a, ha⟩, us, hu, rfl⟩
      obtain ⟨op, vs, rfl, hop, n, b, hb⟩ := mem_oneOf_mul_iff.mp hu
      exact ⟨_, _, ha.multiply hop hb⟩
  | simple =>
    refine mul_kstar_le ?_ ?_
    · rw [add_mul, one_mul]
      rintro ts (hs | ⟨n, e, he⟩)
      · obtain ⟨op, us, rfl, hop, n, e, he⟩ := mem_oneOf_mul_iff.mp hs
        exact ⟨_, _, .sign hop he⟩
      · exact ⟨n, e, he.ofTerm⟩
    · rintro _ ⟨ts, ⟨m, a, ha⟩, us, hu, rfl⟩
      obtain ⟨op, vs, rfl, hop, n, b, hb⟩ := mem_oneOf_mul_iff.mp hu
      exact ⟨_, _, ha.add hop hb⟩
  | expression =>
    simp only [Level.rule]
    rw [mul_add, mul_one]
    rintro _ (⟨ts, ⟨m, a, ha⟩, us, hu, rfl⟩ | ⟨n, e, he⟩)
    · obtain ⟨op, vs, rfl, hop, n, b, hb⟩ := mem_oneOf_mul_iff.mp hu
      exact ⟨_, _, ha.relate hop hb⟩
    · exact ⟨n, e, he.ofSimple⟩

/-- There is a word of every level: a single name. -/
lemma Level.exists_mem_words (l : Level) : ∃ ts, ts ∈ l.words := by
  have hf : Derives .factor 0 [⟨.identifier, "", .absent, ⟨1, 1⟩⟩]
      (.access ⟨.identifier, "", .absent, ⟨1, 1⟩⟩) := .access rfl
  cases l with
  | factor => exact ⟨_, _, _, hf⟩
  | term => exact ⟨_, _, _, hf.ofFactor⟩
  | simple => exact ⟨_, _, _, hf.ofFactor.ofTerm⟩
  | expression => exact ⟨_, _, _, hf.ofFactor.ofTerm.ofSimple⟩

lemma exists_mem_openingWords : ∃ t us, t :: us ∈ openingWords := by
  obtain ⟨w, hw⟩ := Level.factor.exists_mem_words
  exact ⟨⟨.not, "", .absent, ⟨1, 1⟩⟩, w, Or.inl (cons_mem_oneOf_mul_iff.mpr ⟨by simp, hw⟩)⟩

lemma kind_mem_of_openingWords_mul (h : t :: ts ∈ openingWords * K) :
    t.kind ∈ [TokenKind.lparen, .not] := by
  rw [openingWords, add_mul, mul_assoc, mul_assoc] at h
  rcases h with h | h
  · exact List.mem_cons_of_mem _ (cons_mem_oneOf_mul_iff.mp h).1
  · exact List.mem_cons.mpr (Or.inl (List.mem_singleton.mp (cons_mem_oneOf_mul_iff.mp h).1))

/-- A term starts with the token of a factor, and so with none of the kinds that are no such. -/
lemma avoids_term_mul (hk : ∀ k ∈ kinds, k ∉ TokenKind.factorStart) :
    Avoids (Level.term.words * K) kinds := by
  rintro t us ⟨ts, ⟨n, e, he⟩, vs, -, heq⟩ hc
  obtain ⟨t', ts', rfl, ht'⟩ := he.exists_eq_cons
  obtain ⟨rfl, -⟩ := List.cons.inj heq
  exact hk _ hc (ht' (Or.inr rfl))

/-! ### Statements -/

/-- The words of a printed item. -/
def itemWords : Language Token :=
  oneOf [.stringLiteral, .charLiteral] + oneOf [.identifier]

/-- The words of the items behind the first one. -/
def itemsWords : Language Token :=
  (oneOf [.comma] * itemWords)∗

/-- The words of an assignment behind its target. -/
def assignmentWords : Language Token :=
  oneOf [.assign] * Level.expression.words

/-- The words of a print statement behind its keyword. -/
def printWords : Language Token :=
  oneOf [.lparen] * (itemWords * (itemsWords * oneOf [.rparen]))

/-- The words of a read statement behind its keyword. -/
def readWords : Language Token :=
  oneOf [.lparen] * (oneOf [.identifier] * oneOf [.rparen])

/-- The words of a statement. -/
def statementWords : Language Token :=
  oneOf [.identifier] * assignmentWords +
    (oneOf [.printKw] * printWords + oneOf [.readKw] * readWords)

/-- The lists of tokens that are derived as insides of blocks. -/
def bodyWords : Language Token :=
  {ts | ∃ n statements, DerivesBody n ts statements}

/-- The words of a program. -/
def programWords : Language Token :=
  oneOf [.programKw] * (oneOf [.identifier] * (oneOf [.semicolon] * (oneOf [.lbrace] *
    (bodyWords * (oneOf [.rbrace] * (oneOf [.dot] * oneOf [.eof]))))))

lemma mem_itemWords_iff : ts ∈ itemWords ↔ ∃ t i, ts = [t] ∧ DerivesItem t i := by
  constructor
  · rintro (⟨t, ht, rfl⟩ | ⟨t, ht, rfl⟩)
    · exact ⟨t, _, rfl, .literal ht⟩
    · exact ⟨t, _, rfl, .access (List.mem_singleton.mp ht)⟩
  · rintro ⟨t, i, rfl, ht | ht⟩
    · exact Or.inl (singleton_mem_oneOf ht)
    · exact Or.inr (singleton_mem_oneOf (by simp [ht]))

lemma mem_itemsWords_iff : ts ∈ itemsWords ↔ ∃ is, DerivesItems ts is := by
  constructor
  · have hle : itemsWords ≤ {ts | ∃ is, DerivesItems ts is} := by
      refine kstar_le_of_mul_le_right ?_ ?_
      · rintro _ rfl
        exact ⟨[], .nil⟩
      · rintro _ ⟨ts, ht, us, ⟨is, hs⟩, rfl⟩
        obtain ⟨comma, vs, rfl, hc, hv⟩ := mem_oneOf_mul_iff.mp ht
        obtain ⟨t, i, rfl, hi⟩ := mem_itemWords_iff.mp hv
        exact ⟨i :: is, .cons (List.mem_singleton.mp hc) hi hs⟩
    exact fun h => hle h
  · rintro ⟨is, h⟩
    induction h with
    | nil => exact Language.nil_mem_kstar _
    | @cons comma t ts i is hc ht _ ih =>
      have hone : [comma, t] ∈ oneOf [TokenKind.comma] * itemWords :=
        cons_mem_oneOf_mul_iff.mpr ⟨by simp [hc], mem_itemWords_iff.mpr ⟨t, i, rfl, ht⟩⟩
      exact mul_kstar_le_kstar (a := oneOf [TokenKind.comma] * itemWords)
        (Language.append_mem_mul hone ih)

lemma exists_mem_itemWords : ∃ w, w ∈ itemWords := by
  obtain ⟨w, hw⟩ := exists_mem_oneOf (List.cons_ne_nil TokenKind.identifier [])
  exact ⟨w, Or.inr hw⟩

lemma nil_mem_itemsWords : [] ∈ itemsWords :=
  Language.nil_mem_kstar _

/-- The items are none, or one behind a comma and then others. -/
lemma itemsWords_eq : itemsWords = oneOf [.comma] * (itemWords * itemsWords) + 1 := by
  rw [itemsWords, ← mul_assoc, add_comm, Language.one_add_self_mul_kstar_eq_kstar]

lemma exists_mem_assignmentWords : ∃ w, w ∈ assignmentWords :=
  exists_mem_singleton_mul _ (Level.exists_mem_words _)

lemma exists_mem_printWords : ∃ w, w ∈ printWords := by
  apply exists_mem_singleton_mul
  apply exists_mem_mul exists_mem_itemWords
  exact exists_mem_mul ⟨[], nil_mem_itemsWords⟩ (exists_mem_oneOf (List.cons_ne_nil _ _))

lemma exists_mem_readWords : ∃ w, w ∈ readWords := by
  apply exists_mem_singleton_mul
  apply exists_mem_singleton_mul
  exact exists_mem_oneOf (List.cons_ne_nil _ _)

lemma mem_statementWords_iff : ts ∈ statementWords ↔ ∃ n s, DerivesStatement n ts s := by
  constructor
  · rintro (h | h | h)
    · obtain ⟨target, us, rfl, ht, hu⟩ := mem_oneOf_mul_iff.mp h
      obtain ⟨sign, vs, rfl, hs, n, e, he⟩ := mem_oneOf_mul_iff.mp hu
      exact ⟨n, _, .assignment (List.mem_singleton.mp ht) (List.mem_singleton.mp hs) he⟩
    · obtain ⟨keyword, us, rfl, hk, hu⟩ := mem_oneOf_mul_iff.mp h
      obtain ⟨l, vs, rfl, hl, hv⟩ := mem_oneOf_mul_iff.mp hu
      obtain ⟨_, hone, _, hw, rfl⟩ := Language.mem_mul.mp hv
      obtain ⟨ws, hmore, _, ⟨r, hr, rfl⟩, rfl⟩ := Language.mem_mul.mp hw
      obtain ⟨t, i, rfl, hi⟩ := mem_itemWords_iff.mp hone
      obtain ⟨is, hs⟩ := mem_itemsWords_iff.mp hmore
      exact ⟨0, _, .print (List.mem_singleton.mp hk) (List.mem_singleton.mp hl) hi hs
        (List.mem_singleton.mp hr)⟩
    · obtain ⟨keyword, us, rfl, hk, hu⟩ := mem_oneOf_mul_iff.mp h
      obtain ⟨l, vs, rfl, hl, hv⟩ := mem_oneOf_mul_iff.mp hu
      obtain ⟨target, ws, rfl, ht, r, hr, rfl⟩ := mem_oneOf_mul_iff.mp hv
      exact ⟨0, _, .read (List.mem_singleton.mp hk) (List.mem_singleton.mp hl)
        (List.mem_singleton.mp ht) (List.mem_singleton.mp hr)⟩
  · rintro ⟨n, s, h⟩
    cases h with
    | assignment ht hs he =>
      refine Or.inl (cons_mem_oneOf_mul_iff.mpr ⟨by simp [ht], ?_⟩)
      exact cons_mem_oneOf_mul_iff.mpr ⟨by simp [hs], _, _, he⟩
    | print hk hl ht hs hr =>
      refine Or.inr (Or.inl (cons_mem_oneOf_mul_iff.mpr ⟨by simp [hk], ?_⟩))
      refine cons_mem_oneOf_mul_iff.mpr ⟨by simp [hl], ?_⟩
      refine Language.append_mem_mul (mem_itemWords_iff.mpr ⟨_, _, rfl, ht⟩) ?_
      exact Language.append_mem_mul (mem_itemsWords_iff.mpr ⟨_, hs⟩)
        (singleton_mem_oneOf (by simp [hr]))
    | read hk hl ht hr =>
      refine Or.inr (Or.inr (cons_mem_oneOf_mul_iff.mpr ⟨by simp [hk], ?_⟩))
      refine cons_mem_oneOf_mul_iff.mpr ⟨by simp [hl], ?_⟩
      exact cons_mem_oneOf_mul_iff.mpr ⟨by simp [ht], singleton_mem_oneOf (by simp [hr])⟩

lemma exists_mem_statementWords : ∃ w, w ∈ statementWords := by
  obtain ⟨w, hw⟩ := exists_mem_singleton_mul .readKw exists_mem_readWords
  exact ⟨w, Or.inr (Or.inr hw)⟩

lemma avoids_statement_mul (hk : ∀ k ∈ kinds, k ∉ [TokenKind.identifier, .printKw, .readKw]) :
    Avoids (statementWords * K) kinds := by
  have hfirst : ∀ {k : TokenKind}, k ∈ [TokenKind.identifier, .printKw, .readKw] →
      ∀ L : Language Token, Avoids (oneOf [k] * L) kinds := by
    intro k hk' L
    exact avoids_oneOf_mul (by simpa using fun hc => hk k hc hk') L
  rw [statementWords, add_mul, add_mul, mul_assoc, mul_assoc, mul_assoc]
  exact (hfirst (by simp) _).add ((hfirst (by simp) _).add (hfirst (by simp) _))

/-! ### Blocks and programs -/

/-- A block is empty, or a statement behind which the block ends or goes on with a semicolon. -/
lemma bodyWords_eq :
    bodyWords = 1 + statementWords * (1 + oneOf [.semicolon] * bodyWords) := by
  refine le_antisymm ?_ ?_
  · rintro ts ⟨n, statements, h⟩
    cases h with
    | nil => exact Or.inl rfl
    | last hs =>
      rw [mul_add, mul_one]
      exact Or.inr (Or.inl (mem_statementWords_iff.mpr ⟨_, _, hs⟩))
    | cons hs hc hr =>
      refine Or.inr (Language.append_mem_mul (mem_statementWords_iff.mpr ⟨_, _, hs⟩) (Or.inr ?_))
      exact cons_mem_oneOf_mul_iff.mpr ⟨by simp [hc], _, _, hr⟩
  · rw [mul_add, mul_one]
    rintro _ (rfl | hs | ⟨ts, hs, us, hu, rfl⟩)
    · exact ⟨0, [], .nil⟩
    · obtain ⟨n, s, hs⟩ := mem_statementWords_iff.mp hs
      exact ⟨n, [s], .last hs⟩
    · obtain ⟨m, s, hs⟩ := mem_statementWords_iff.mp hs
      obtain ⟨semicolon, vs, rfl, hc, n, rest, hr⟩ := mem_oneOf_mul_iff.mp hu
      exact ⟨_, _, .cons hs (List.mem_singleton.mp hc) hr⟩

lemma exists_mem_programWords : ∃ w, w ∈ programWords := by
  have hnil : [] ∈ bodyWords := ⟨0, [], .nil⟩
  iterate 4 apply exists_mem_singleton_mul
  apply exists_mem_mul ⟨[], hnil⟩
  iterate 2 apply exists_mem_singleton_mul
  exact exists_mem_oneOf (List.cons_ne_nil _ _)

lemma mem_programWords_iff : ts ∈ programWords ↔ ∃ n tree, DerivesProgram n ts tree := by
  constructor
  · intro h
    obtain ⟨keyword, _, rfl, hk, h⟩ := mem_oneOf_mul_iff.mp h
    obtain ⟨name, _, rfl, hn, h⟩ := mem_oneOf_mul_iff.mp h
    obtain ⟨semicolon, _, rfl, hc, h⟩ := mem_oneOf_mul_iff.mp h
    obtain ⟨l, _, rfl, hl, h⟩ := mem_oneOf_mul_iff.mp h
    obtain ⟨us, ⟨n, statements, hs⟩, _, hend, rfl⟩ := Language.mem_mul.mp h
    obtain ⟨r, _, rfl, hr, hend⟩ := mem_oneOf_mul_iff.mp hend
    obtain ⟨dot, _, rfl, hd, ending, he, rfl⟩ := mem_oneOf_mul_iff.mp hend
    simp only [List.mem_singleton] at hk hn hc hl hr hd he
    exact ⟨n, _, .mk hk hn hc hl hs hr hd he⟩
  · rintro ⟨n, tree, hk, hn, hc, hl, hs, hr, hd, he⟩
    simp only [programWords, cons_mem_oneOf_mul_iff, hk, hn, hc, hl, List.mem_singleton, true_and]
    refine Language.append_mem_mul ⟨_, _, hs⟩ ?_
    simp only [cons_mem_oneOf_mul_iff, hr, hd, List.mem_singleton, true_and]
    exact singleton_mem_oneOf (by simp [he])

end Barnamaj
