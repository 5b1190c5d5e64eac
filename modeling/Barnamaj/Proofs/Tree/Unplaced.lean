import Barnamaj.Proofs.Grammar.Derivation

/-!
# Trees without places

Two trees are equal up to places if they are equal once all places in them are forgotten. The
grammar does not look at places: the same lexemes at other places derive the same tree up to places.
-/

namespace Barnamaj

/-! ### Forgetting places -/

/-- The place that stands for all places. -/
def Position.origin : Position := ⟨1, 1⟩

/-- A token, put at the origin. -/
def Token.unplaced (t : Token) : Token :=
  { t with position := .origin }

/-- An expression with all of its tokens put at the origin. -/
def Expression.unplaced : Expression → Expression
  | .literal t => .literal t.unplaced
  | .access t => .access t.unplaced
  | .unary op operand => .unary op.unplaced operand.unplaced
  | .binary op left right => .binary op.unplaced left.unplaced right.unplaced

/-- A printed item with its token put at the origin. -/
def PrintItem.unplaced : PrintItem → PrintItem
  | .literal t => .literal t.unplaced
  | .access t => .access t.unplaced

/-- A statement with all of its tokens put at the origin. -/
def Statement.unplaced : Statement → Statement
  | .assignment target e => .assignment target.unplaced e.unplaced
  | .print keyword items => .print keyword.unplaced (items.map PrintItem.unplaced)
  | .read keyword target => .read keyword.unplaced target.unplaced

/-- A program with everything in it put at the origin. -/
def Program.unplaced (p : Program) : Program :=
  { position := .origin, name := p.name, bodyPosition := .origin,
    statements := p.statements.map Statement.unplaced }

lemma Expression.height_unplaced (e : Expression) : e.unplaced.height = e.height := by
  induction e with
  | literal t => rfl
  | access t => rfl
  | unary op operand ih => simp only [unplaced, height, ih]
  | binary op left right ihl ihr => simp only [unplaced, height, ihl, ihr]

lemma Statement.expressions_unplaced (s : Statement) :
    s.unplaced.expressions = s.expressions.map Expression.unplaced := by
  cases s <;> rfl

lemma Program.expressions_unplaced (p : Program) :
    p.unplaced.expressions = p.expressions.map Expression.unplaced := by
  simp only [Program.expressions, Program.unplaced, List.flatMap_map, List.map_flatMap,
    Statement.expressions_unplaced]

/-- Trees that are equal up to places have the same heights. -/
lemma Program.forall_height_le {p q : Program} {k : Nat} (h : p.unplaced = q.unplaced)
    (hq : ∀ e ∈ q.expressions, e.height ≤ k) : ∀ e ∈ p.expressions, e.height ≤ k := by
  intro e he
  have hmem : e.unplaced ∈ q.unplaced.expressions := by
    rw [← h, Program.expressions_unplaced]
    exact List.mem_map_of_mem he
  rw [Program.expressions_unplaced] at hmem
  obtain ⟨e', he', heq⟩ := List.mem_map.mp hmem
  rw [← e.height_unplaced, ← heq, e'.height_unplaced]
  exact hq e' he'

/-! ### The same lexemes at other places -/

/-- The same lexemes in the same order. -/
def SameLexemes (us ts : List Token) : Prop :=
  us.map Token.toLexeme = ts.map Token.toLexeme

variable {n : Nat} {t u : Token} {ts us vs : List Token}

lemma Token.unplaced_of_toLexeme (h : t.toLexeme = u.toLexeme) :
    t.kind = u.kind ∧ t.unplaced = u.unplaced := by
  simp only [toLexeme, Lexeme.mk.injEq] at h
  obtain ⟨hk, hl, hv⟩ := h
  exact ⟨hk, by simp only [unplaced, hk, hl, hv]⟩

lemma SameLexemes.eq_nil (h : SameLexemes us []) : us = [] :=
  List.map_eq_nil_iff.mp h

lemma SameLexemes.exists_cons (h : SameLexemes us (t :: ts)) :
    ∃ u us', us = u :: us' ∧ u.kind = t.kind ∧ u.unplaced = t.unplaced ∧ SameLexemes us' ts := by
  obtain ⟨u, us', rfl, hl, hu⟩ := List.map_eq_cons_iff.mp h
  obtain ⟨hk, hun⟩ := Token.unplaced_of_toLexeme hl
  exact ⟨u, us', rfl, hk, hun, hu⟩

lemma SameLexemes.exists_append (h : SameLexemes us (ts ++ vs)) :
    ∃ us₁ us₂, us = us₁ ++ us₂ ∧ SameLexemes us₁ ts ∧ SameLexemes us₂ vs := by
  rw [SameLexemes, List.map_append] at h
  exact List.map_eq_append_iff.mp h

lemma SameLexemes.exists_singleton (h : SameLexemes us [t]) :
    ∃ u, us = [u] ∧ u.kind = t.kind ∧ u.unplaced = t.unplaced := by
  obtain ⟨u, us', rfl, hk, hun, hu⟩ := h.exists_cons
  obtain rfl := hu.eq_nil
  exact ⟨u, rfl, hk, hun⟩

/-- An operator between two operands. -/
lemma SameLexemes.exists_binary (h : SameLexemes us (ts ++ t :: vs)) :
    ∃ us₁ u us₂, us = us₁ ++ u :: us₂ ∧ SameLexemes us₁ ts ∧ u.kind = t.kind ∧
      u.unplaced = t.unplaced ∧ SameLexemes us₂ vs := by
  obtain ⟨us₁, us', rfl, h₁, h'⟩ := h.exists_append
  obtain ⟨u, us₂, rfl, hk, hun, h₂⟩ := h'.exists_cons
  exact ⟨us₁, u, us₂, rfl, h₁, hk, hun, h₂⟩

/-- The operands of an operator and the operator itself may be replaced one by one. -/
lemma Derives.replace_binary {l la lb : Level} {m : Nat} {op : Token} {a b : Expression}
    (rule : ∀ {u : Token} {us₁ us₂ : List Token} {a' b' : Expression}, u.kind = op.kind →
      Derives la m us₁ a' → Derives lb n us₂ b' →
        Derives l (max m n) (us₁ ++ u :: us₂) (.binary u a' b'))
    (iha : ∀ {us}, SameLexemes us ts → ∃ a', Derives la m us a' ∧ a'.unplaced = a.unplaced)
    (ihb : ∀ {us}, SameLexemes us vs → ∃ b', Derives lb n us b' ∧ b'.unplaced = b.unplaced)
    (hu : SameLexemes us (ts ++ op :: vs)) :
    ∃ e', Derives l (max m n) us e' ∧ e'.unplaced = (Expression.binary op a b).unplaced := by
  obtain ⟨us₁, u, us₂, rfl, h₁, hk, hun, h₂⟩ := hu.exists_binary
  obtain ⟨a', ha', hea⟩ := iha h₁
  obtain ⟨b', hb', heb⟩ := ihb h₂
  exact ⟨.binary u a' b', rule hk ha' hb', by simp only [Expression.unplaced, hun, hea, heb]⟩

/-- The same lexemes derive the same expression up to places. -/
lemma Derives.replace {l : Level} {e : Expression} (h : Derives l n ts e)
    (hu : SameLexemes us ts) : ∃ e', Derives l n us e' ∧ e'.unplaced = e.unplaced := by
  induction h generalizing us with
  | literal ht =>
    obtain ⟨u, rfl, hk, hun⟩ := hu.exists_singleton
    exact ⟨.literal u, .literal (hk ▸ ht), by simp only [Expression.unplaced, hun]⟩
  | access ht =>
    obtain ⟨u, rfl, hk, hun⟩ := hu.exists_singleton
    exact ⟨.access u, .access (hk.trans ht), by simp only [Expression.unplaced, hun]⟩
  | not hop _ ih =>
    obtain ⟨u, us, rfl, hk, hun, hu⟩ := hu.exists_cons
    obtain ⟨e', he', heq⟩ := ih hu
    exact ⟨.unary u e', .not (hk.trans hop) he', by simp only [Expression.unplaced, hun, heq]⟩
  | parens hl _ hr ih =>
    obtain ⟨u, us, rfl, hk, -, hu⟩ := hu.exists_cons
    obtain ⟨us₁, us₂, rfl, h₁, h₂⟩ := hu.exists_append
    obtain ⟨v, rfl, hk', -⟩ := h₂.exists_singleton
    obtain ⟨e', he', heq⟩ := ih h₁
    exact ⟨e', .parens (hk.trans hl) he' (hk'.trans hr), heq⟩
  | ofFactor _ ih =>
    obtain ⟨e', he', heq⟩ := ih hu
    exact ⟨e', he'.ofFactor, heq⟩
  | multiply _ hop _ iha ihb =>
    exact replace_binary (fun hk ha hb => ha.multiply (hk ▸ hop) hb) iha ihb hu
  | ofTerm _ ih =>
    obtain ⟨e', he', heq⟩ := ih hu
    exact ⟨e', he'.ofTerm, heq⟩
  | sign hop _ ih =>
    obtain ⟨u, us, rfl, hk, hun, hu⟩ := hu.exists_cons
    obtain ⟨e', he', heq⟩ := ih hu
    exact ⟨.unary u e', .sign (hk ▸ hop) he', by simp only [Expression.unplaced, hun, heq]⟩
  | add _ hop _ iha ihb =>
    exact replace_binary (fun hk ha hb => ha.add (hk ▸ hop) hb) iha ihb hu
  | ofSimple _ ih =>
    obtain ⟨e', he', heq⟩ := ih hu
    exact ⟨e', he'.ofSimple, heq⟩
  | relate _ hop _ iha ihb =>
    exact replace_binary (fun hk ha hb => ha.relate (hk ▸ hop) hb) iha ihb hu

lemma DerivesItem.replace {i : PrintItem} (h : DerivesItem t i) (hk : u.kind = t.kind)
    (hun : u.unplaced = t.unplaced) : ∃ i', DerivesItem u i' ∧ i'.unplaced = i.unplaced := by
  cases h with
  | literal ht => exact ⟨.literal u, .literal (hk ▸ ht), by simp only [PrintItem.unplaced, hun]⟩
  | access ht =>
    exact ⟨.access u, .access (hk.trans ht), by simp only [PrintItem.unplaced, hun]⟩

lemma DerivesItems.replace {is : List PrintItem} (h : DerivesItems ts is)
    (hu : SameLexemes us ts) : ∃ is', DerivesItems us is' ∧
      is'.map PrintItem.unplaced = is.map PrintItem.unplaced := by
  induction h generalizing us with
  | nil =>
    obtain rfl := hu.eq_nil
    exact ⟨[], .nil, rfl⟩
  | cons hc ht _ ih =>
    obtain ⟨c, us, rfl, hkc, -, hu⟩ := hu.exists_cons
    obtain ⟨u, us, rfl, hk, hun, hu⟩ := hu.exists_cons
    obtain ⟨i', hi', hei⟩ := ht.replace hk hun
    obtain ⟨is', his', heis⟩ := ih hu
    exact ⟨i' :: is', .cons (hkc.trans hc) hi' his', by simp only [List.map_cons, hei, heis]⟩

lemma DerivesStatement.replace {s : Statement} (h : DerivesStatement n ts s)
    (hu : SameLexemes us ts) :
    ∃ s', DerivesStatement n us s' ∧ s'.unplaced = s.unplaced := by
  cases h with
  | assignment ht hs he =>
    obtain ⟨target, us, rfl, hk, hun, hu⟩ := hu.exists_cons
    obtain ⟨sign, us, rfl, hks, -, hu⟩ := hu.exists_cons
    obtain ⟨e', he', heq⟩ := he.replace hu
    exact ⟨.assignment target e', .assignment (hk.trans ht) (hks.trans hs) he',
      by simp only [Statement.unplaced, hun, heq]⟩
  | print hk hl ht hs hr =>
    obtain ⟨keyword, us, rfl, hkk, hun, hu⟩ := hu.exists_cons
    obtain ⟨l, us, rfl, hkl, -, hu⟩ := hu.exists_cons
    obtain ⟨u, us, rfl, hku, hunu, hu⟩ := hu.exists_cons
    obtain ⟨us₁, us₂, rfl, h₁, h₂⟩ := hu.exists_append
    obtain ⟨r, rfl, hkr, -⟩ := h₂.exists_singleton
    obtain ⟨i', hi', hei⟩ := ht.replace hku hunu
    obtain ⟨is', his', heis⟩ := hs.replace h₁
    exact ⟨.print keyword (i' :: is'), .print (hkk.trans hk) (hkl.trans hl) hi' his' (hkr.trans hr),
      by simp only [Statement.unplaced, List.map_cons, hun, hei, heis]⟩
  | read hk hl ht hr =>
    obtain ⟨keyword, us, rfl, hkk, hun, hu⟩ := hu.exists_cons
    obtain ⟨l, us, rfl, hkl, -, hu⟩ := hu.exists_cons
    obtain ⟨target, us, rfl, hkt, hunt, hu⟩ := hu.exists_cons
    obtain ⟨r, rfl, hkr, -⟩ := hu.exists_singleton
    exact ⟨.read keyword target,
      .read (hkk.trans hk) (hkl.trans hl) (hkt.trans ht) (hkr.trans hr),
      by simp only [Statement.unplaced, hun, hunt]⟩

lemma DerivesBody.replace {statements : List Statement} (h : DerivesBody n ts statements)
    (hu : SameLexemes us ts) : ∃ statements', DerivesBody n us statements' ∧
      statements'.map Statement.unplaced = statements.map Statement.unplaced := by
  induction h generalizing us with
  | nil =>
    obtain rfl := hu.eq_nil
    exact ⟨[], .nil, rfl⟩
  | last hs =>
    obtain ⟨s', hs', hes⟩ := hs.replace hu
    exact ⟨[s'], .last hs', by simp only [List.map_cons, hes]⟩
  | cons hs hc _ ih =>
    obtain ⟨us₁, c, us₂, rfl, h₁, hk, -, h₂⟩ := hu.exists_binary
    obtain ⟨s', hs', hes⟩ := hs.replace h₁
    obtain ⟨rest', hrest', her⟩ := ih h₂
    exact ⟨s' :: rest', .cons hs' (hk.trans hc) hrest', by simp only [List.map_cons, hes, her]⟩

/-- The same lexemes derive the same program up to places. -/
lemma DerivesProgram.replace {p : Program} (h : DerivesProgram n ts p) (hu : SameLexemes us ts) :
    ∃ p', DerivesProgram n us p' ∧ p'.unplaced = p.unplaced := by
  obtain ⟨hk, hn, hc, hl, hs, hr, hd, he⟩ := h
  obtain ⟨keyword, us, rfl, hkk, -, hu⟩ := hu.exists_cons
  obtain ⟨name, us, rfl, hkn, hun, hu⟩ := hu.exists_cons
  obtain ⟨semicolon, us, rfl, hkc, -, hu⟩ := hu.exists_cons
  obtain ⟨l, us, rfl, hkl, -, hu⟩ := hu.exists_cons
  obtain ⟨us₁, us₂, rfl, h₁, h₂⟩ := hu.exists_append
  obtain ⟨r, us₂, rfl, hkr, -, h₂⟩ := h₂.exists_cons
  obtain ⟨dot, us₂, rfl, hkd, -, h₂⟩ := h₂.exists_cons
  obtain ⟨ending, rfl, hke, -⟩ := h₂.exists_singleton
  obtain ⟨statements', hs', hes⟩ := hs.replace h₁
  refine ⟨_, .mk (hkk.trans hk) (hkn.trans hn) (hkc.trans hc) (hkl.trans hl) hs' (hkr.trans hr)
    (hkd.trans hd) (hke.trans he), ?_⟩
  have hname := congrArg Token.lexeme hun
  simp only [Token.unplaced] at hname
  simp only [Program.unplaced, hname, hes]

end Barnamaj
