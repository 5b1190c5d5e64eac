import Barnamaj.Proofs.Grammar.Derivation
import Barnamaj.Proofs.Parser.Moves

/-!
# Parsed trees are derived

Whatever a step of the parser finds, the tokens it has moved over derive it, within the limits of
the parser: the nesting is at most the number of levels that could be opened, and no expression is
higher than `maxHeight`.
-/

namespace Barnamaj

namespace Parse

/-! ### Expressions -/

/-- Every expression that a step finds is derived at a level from the tokens that the step moves
over, with a bounded nesting and height. -/
def Yields (m : Parse Expression) (l : Level) (levels : Nat) : Prop :=
  ∀ p e q, m p = .ok e q →
    ∃ n ts, p.Moves ts q ∧ Derives l n ts e ∧ n ≤ levels ∧ e.height ≤ maxHeight

variable {levels : Nat}

lemma checkHeight_eq_ok {operator : Token} {e e' : Expression} {p q : Parser}
    (h : checkHeight operator e p = .ok e' q) : e = e' ∧ p = q ∧ e.height ≤ maxHeight := by
  rw [checkHeight] at h
  split at h
  · next hle =>
    cases h
    exact ⟨rfl, rfl, hle⟩
  · cases h

/-- A chain of operators goes on from a derivation of its left end. -/
lemma chain_yields {kinds : List TokenKind} {operand : Parse Expression} {l lo : Level}
    (rule : ∀ {op : Token} {m n : Nat} {ts us : List Token} {a b : Expression},
      Derives l m ts a → op.kind ∈ kinds → Derives lo n us b →
        Derives l (max m n) (ts ++ op :: us) (.binary op a b))
    (ho : Yields operand lo levels) {left e : Expression} {p₀ p q : Parser} {m : Nat}
    {ts : List Token} (hm : p₀.Moves ts p) (hd : Derives l m ts left) (hn : m ≤ levels)
    (hh : left.height ≤ maxHeight) (h : chain kinds operand left p = .ok e q) :
    ∃ n us, p₀.Moves us q ∧ Derives l n us e ∧ n ≤ levels ∧ e.height ≤ maxHeight := by
  -- each turn makes the left end higher, and its height is bounded
  induction hk : maxHeight - left.height using Nat.strongRecOn generalizing left p m ts with
  | _ k ih =>
    rw [chain] at h
    obtain ⟨found, r, hr, h⟩ := bind_eq_ok h
    cases found with
    | none =>
      obtain ⟨rfl, -⟩ := accept_eq_none hr
      cases h
      exact ⟨m, ts, hm, hd, hn, hh⟩
    | some op =>
      obtain ⟨rfl, hop, ha⟩ := accept_eq_some hr
      obtain ⟨right, s, hs, h⟩ := bind_eq_ok h
      obtain ⟨n, us, hms, hds, hns, -⟩ := ho r right s hs
      split at h
      · next hle =>
        have hlt : maxHeight - (Expression.binary p.current left right).height < k := by
          simp only [Expression.height] at hle ⊢
          omega
        exact ih _ hlt (hm.trans (.step ha hms)) (rule hd hop hds) (max_le hn hns) hle h rfl
      · cases h

lemma yields_term {factor : Parse Expression} (hf : Yields factor .factor levels) :
    Yields (term factor) .term levels := by
  intro p e q h
  obtain ⟨first, r, hr, h⟩ := bind_eq_ok h
  obtain ⟨n, ts, hm, hd, hn, hh⟩ := hf p first r hr
  exact chain_yields .multiply hf hm hd.ofFactor hn hh h

lemma yields_simple {factor : Parse Expression} (hf : Yields factor .factor levels) :
    Yields (simple factor) .simple levels := by
  intro p e q h
  obtain ⟨sign, r, hr, h⟩ := bind_eq_ok h
  obtain ⟨first, s, hs, h⟩ := bind_eq_ok h
  obtain ⟨signed, t, ht, h⟩ := bind_eq_ok h
  obtain ⟨n, ts, hm, hd, hn, hh⟩ := yields_term hf r first s hs
  cases sign with
  | none =>
    obtain ⟨rfl, -⟩ := accept_eq_none hr
    cases ht
    exact chain_yields .add (yields_term hf) hm hd.ofTerm hn hh h
  | some op =>
    obtain ⟨rfl, hop, ha⟩ := accept_eq_some hr
    obtain ⟨rfl, rfl, hle⟩ := checkHeight_eq_ok ht
    exact chain_yields .add (yields_term hf) (.step ha hm) (.sign hop hd) hn hle h

lemma yields_expression {factor : Parse Expression} (hf : Yields factor .factor levels) :
    Yields (expression factor) .expression levels := by
  intro p e q h
  obtain ⟨left, r, hr, h⟩ := bind_eq_ok h
  obtain ⟨n, ts, hm, hd, hn, hh⟩ := yields_simple hf p left r hr
  obtain ⟨found, s, hs, h⟩ := bind_eq_ok h
  cases found with
  | none =>
    obtain ⟨rfl, -⟩ := accept_eq_none hs
    cases h
    exact ⟨n, ts, hm, hd.ofSimple, hn, hh⟩
  | some op =>
    obtain ⟨rfl, hop, ha⟩ := accept_eq_some hs
    obtain ⟨right, t, ht, h⟩ := bind_eq_ok h
    obtain ⟨n', us, hm', hd', hn', -⟩ := yields_simple hf s right t ht
    obtain ⟨rfl, rfl, hle⟩ := checkHeight_eq_ok h
    exact ⟨max n n', _, hm.trans (.step ha hm'), .relate hd hop hd', max_le hn hn', hle⟩

/-- An atom that is found is a factor; when none is found the parser has not moved. -/
lemma atom_eq_some {p q : Parser} {e : Expression} (h : atom p = .ok (some e) q) :
    Parse.advance p = .ok () q ∧ Derives .factor 0 [p.current] e ∧ e.height = 1 := by
  obtain ⟨found, r, hr, h⟩ := bind_eq_ok h
  cases found with
  | some t =>
    obtain ⟨rfl, hk, ha⟩ := accept_eq_some hr
    cases h
    exact ⟨ha, .literal hk, rfl⟩
  | none =>
    obtain ⟨rfl, -⟩ := accept_eq_none hr
    obtain ⟨found, s, hs, h⟩ := bind_eq_ok h
    cases found with
    | none => cases h
    | some t =>
      obtain ⟨rfl, hk, ha⟩ := accept_eq_some hs
      cases h
      exact ⟨ha, .access (List.mem_singleton.mp hk), rfl⟩

lemma atom_eq_none {p q : Parser} (h : atom p = .ok none q) :
    p = q ∧ p.current.kind ∉ TokenKind.literal ∧ p.current.kind ≠ .identifier := by
  obtain ⟨found, r, hr, h⟩ := bind_eq_ok h
  cases found with
  | some t => cases h
  | none =>
    obtain ⟨rfl, hk⟩ := accept_eq_none hr
    obtain ⟨found, s, hs, h⟩ := bind_eq_ok h
    cases found with
    | some t => cases h
    | none =>
      obtain ⟨rfl, hk'⟩ := accept_eq_none hs
      cases h
      exact ⟨rfl, hk, fun hc => hk' (by simp [hc])⟩

lemma refuse_ne_ok {p q : Parser} {e : Expression} : refuse p ≠ .ok e q := by
  intro h
  obtain ⟨t, r, hr, h⟩ := bind_eq_ok h
  split at h
  · obtain ⟨_, s, _, h⟩ := bind_eq_ok h
    cases h
  · cases h

lemma yields_factor (levels : Nat) : Yields (factor levels) .factor levels := by
  induction levels with
  | zero =>
    intro p e q h
    obtain ⟨found, r, hr, h⟩ := bind_eq_ok h
    cases found with
    | none => exact absurd h refuse_ne_ok
    | some e' =>
      obtain ⟨ha, hd, hh⟩ := atom_eq_some hr
      cases h
      exact ⟨0, _, .single ha, hd, le_rfl, by simp [hh, maxHeight]⟩
  | succ levels ih =>
    intro p e q h
    obtain ⟨found, r, hr, h⟩ := bind_eq_ok h
    cases found with
    | some e' =>
      obtain ⟨ha, hd, hh⟩ := atom_eq_some hr
      cases h
      exact ⟨0, _, .single ha, hd, Nat.zero_le _, by simp [hh, maxHeight]⟩
    | none =>
      obtain ⟨rfl, -⟩ := atom_eq_none hr
      obtain ⟨found, s, hs, h⟩ := bind_eq_ok h
      cases found with
      | some op =>
        obtain ⟨rfl, hop, ha⟩ := accept_eq_some hs
        obtain ⟨operand, t, ht, h⟩ := bind_eq_ok h
        obtain ⟨n, ts, hm, hd, hn, -⟩ := ih s operand t ht
        obtain ⟨rfl, rfl, hle⟩ := checkHeight_eq_ok h
        exact ⟨n + 1, _, .step ha hm, .not (List.mem_singleton.mp hop) hd, by omega, hle⟩
      | none =>
        obtain ⟨rfl, -⟩ := accept_eq_none hs
        obtain ⟨found, t, ht, h⟩ := bind_eq_ok h
        cases found with
        | none => exact absurd h refuse_ne_ok
        | some l =>
          obtain ⟨rfl, hl, ha⟩ := accept_eq_some ht
          obtain ⟨e', u, hu, h⟩ := bind_eq_ok h
          obtain ⟨n, ts, hm, hd, hn, hh⟩ := yields_expression ih t e' u hu
          obtain ⟨r', v, hv, h⟩ := bind_eq_ok h
          obtain ⟨rfl, hr', ha'⟩ := expect_eq_ok hv
          cases h
          exact ⟨n + 1, _, .step ha (hm.trans (.single ha')),
            .parens (List.mem_singleton.mp hl) hd hr', by omega, hh⟩

lemma wholeExpression_yields {p q : Parser} {e : Expression}
    (h : wholeExpression p = .ok e q) :
    ∃ n ts, p.Moves ts q ∧ Derives .expression n ts e ∧ n ≤ maxNesting - p.depth ∧
      e.height ≤ maxHeight := by
  obtain ⟨p', r, hr, h⟩ := bind_eq_ok h
  cases hr
  exact yields_expression (yields_factor _) p e q h

/-! ### Statements -/

lemma printItem_eq_ok {p q : Parser} {i : PrintItem} (h : printItem p = .ok i q) :
    advance p = .ok () q ∧ DerivesItem p.current i := by
  obtain ⟨found, r, hr, h⟩ := bind_eq_ok h
  cases found with
  | some t =>
    obtain ⟨rfl, hk, ha⟩ := accept_eq_some hr
    cases h
    exact ⟨ha, .literal hk⟩
  | none =>
    obtain ⟨rfl, -⟩ := accept_eq_none hr
    obtain ⟨t, s, hs, h⟩ := bind_eq_ok h
    obtain ⟨rfl, hk, ha⟩ := expect_eq_ok hs
    cases h
    exact ⟨ha, .access hk⟩

lemma nextItem_eq_some {p q : Parser} {i : PrintItem} (h : nextItem p = .ok (some i) q) :
    ∃ r, p.current.kind = .comma ∧ advance p = .ok () r ∧ advance r = .ok () q ∧
      DerivesItem r.current i := by
  obtain ⟨found, r, hr, h⟩ := bind_eq_ok h
  cases found with
  | none => cases h
  | some t =>
    obtain ⟨rfl, hk, ha⟩ := accept_eq_some hr
    obtain ⟨i', s, hs, h⟩ := bind_eq_ok h
    cases h
    obtain ⟨ha', hd⟩ := printItem_eq_ok hs
    exact ⟨r, List.mem_singleton.mp hk, ha, ha', hd⟩

lemma nextItem_eq_none {p q : Parser} (h : nextItem p = .ok none q) :
    p = q ∧ p.current.kind ≠ .comma := by
  obtain ⟨found, r, hr, h⟩ := bind_eq_ok h
  cases found with
  | none =>
    obtain ⟨rfl, hk⟩ := accept_eq_none hr
    cases h
    exact ⟨rfl, fun hc => hk (by simp [hc])⟩
  | some t =>
    obtain ⟨i', s, hs, h⟩ := bind_eq_ok h
    cases h

lemma collected_items {p q : Parser} {is : List PrintItem} (h : Collected nextItem p is q) :
    ∃ ts, p.Moves ts q ∧ DerivesItems ts is := by
  induction h with
  | nil h =>
    obtain ⟨rfl, -⟩ := nextItem_eq_none h
    exact ⟨[], .refl _, .nil⟩
  | cons h _ ih =>
    obtain ⟨ts, hm, hd⟩ := ih
    obtain ⟨s, hc, ha, ha', hi⟩ := nextItem_eq_some h
    exact ⟨_, .step ha (.step ha' hm), .cons hc hi hd⟩

/-- A statement that is found is derived from the tokens that were moved over. -/
lemma statement_eq_ok {p q : Parser} {s : Statement} (h : statement p = .ok s q) :
    ∃ n ts, p.Moves ts q ∧ DerivesStatement n ts s ∧ n ≤ maxNesting - p.depth ∧
      ∀ e ∈ s.expressions, e.height ≤ maxHeight := by
  obtain ⟨found, r, hr, h⟩ := bind_eq_ok h
  cases found with
  | some target =>
    obtain ⟨rfl, hk, ha⟩ := accept_eq_some hr
    obtain ⟨sign, t, ht, h⟩ := bind_eq_ok h
    obtain ⟨rfl, hs, ha'⟩ := expect_eq_ok ht
    obtain ⟨e, u, hu, h⟩ := bind_eq_ok h
    cases h
    obtain ⟨n, ts, hm, hd, hn, hh⟩ := wholeExpression_yields hu
    rw [depth_advance ha', depth_advance ha] at hn
    exact ⟨n, _, .step ha (.step ha' hm), .assignment (List.mem_singleton.mp hk) hs hd, hn,
      by simpa [Statement.expressions] using hh⟩
  | none =>
    obtain ⟨rfl, -⟩ := accept_eq_none hr
    obtain ⟨found, t, ht, h⟩ := bind_eq_ok h
    cases found with
    | some keyword =>
      obtain ⟨rfl, hk, ha⟩ := accept_eq_some ht
      obtain ⟨l, u, hu, h⟩ := bind_eq_ok h
      obtain ⟨rfl, hl, ha₁⟩ := expect_eq_ok hu
      obtain ⟨i, v, hv, h⟩ := bind_eq_ok h
      obtain ⟨ha₂, hi⟩ := printItem_eq_ok hv
      obtain ⟨is, w, hw, h⟩ := bind_eq_ok h
      obtain ⟨ts, hm, hd⟩ := collected_items (collected_of_collect hw)
      obtain ⟨r', x, hx, h⟩ := bind_eq_ok h
      obtain ⟨rfl, hr', ha₃⟩ := expect_eq_ok hx
      cases h
      exact ⟨0, _, .step ha (.step ha₁ (.step ha₂ (hm.trans (.single ha₃)))),
        .print (List.mem_singleton.mp hk) hl hi hd hr', Nat.zero_le _,
        by simp [Statement.expressions]⟩
    | none =>
      obtain ⟨rfl, -⟩ := accept_eq_none ht
      obtain ⟨found, u, hu, h⟩ := bind_eq_ok h
      cases found with
      | none => cases h
      | some keyword =>
        obtain ⟨rfl, hk, ha⟩ := accept_eq_some hu
        obtain ⟨l, v, hv, h⟩ := bind_eq_ok h
        obtain ⟨rfl, hl, ha₁⟩ := expect_eq_ok hv
        obtain ⟨target, w, hw, h⟩ := bind_eq_ok h
        obtain ⟨rfl, ht', ha₂⟩ := expect_eq_ok hw
        obtain ⟨r', x, hx, h⟩ := bind_eq_ok h
        obtain ⟨rfl, hr', ha₃⟩ := expect_eq_ok hx
        cases h
        exact ⟨0, _, .step ha (.step ha₁ (.step ha₂ (.single ha₃))),
          .read (List.mem_singleton.mp hk) hl ht' hr', Nat.zero_le _,
          by simp [Statement.expressions]⟩

lemma separator_eq_ok {p q : Parser} (h : separator p = .ok () q) :
    (p.current.kind = .semicolon ∧ advance p = .ok () q) ∨
      (p = q ∧ p.current.kind = .rbrace) := by
  obtain ⟨found, r, hr, h⟩ := bind_eq_ok h
  cases found with
  | some t =>
    obtain ⟨rfl, hk, ha⟩ := accept_eq_some hr
    cases h
    exact Or.inl ⟨List.mem_singleton.mp hk, ha⟩
  | none =>
    obtain ⟨rfl, -⟩ := accept_eq_none hr
    obtain ⟨t, s, hs, h⟩ := bind_eq_ok h
    cases hs
    split at h
    · next hk =>
      cases h
      exact Or.inr ⟨rfl, hk⟩
    · cases h

lemma nextStatement_eq_none {p q : Parser} (h : nextStatement p = .ok none q) :
    p = q ∧ p.current.kind ∈ [TokenKind.rbrace, .eof] := by
  obtain ⟨t, r, hr, h⟩ := bind_eq_ok h
  cases hr
  split at h
  · next hk =>
    cases h
    exact ⟨rfl, hk⟩
  · obtain ⟨s, r, hr, h⟩ := bind_eq_ok h
    obtain ⟨u, r, hr, h⟩ := bind_eq_ok h
    cases h

lemma nextStatement_eq_some {p q : Parser} {s : Statement}
    (h : nextStatement p = .ok (some s) q) :
    p.current.kind ∉ [TokenKind.rbrace, .eof] ∧
      ∃ r, statement p = .ok s r ∧ separator r = .ok () q := by
  obtain ⟨t, r, hr, h⟩ := bind_eq_ok h
  cases hr
  split at h
  · cases h
  · next hk =>
    obtain ⟨s', r, hr, h⟩ := bind_eq_ok h
    obtain ⟨u, r', hr', h⟩ := bind_eq_ok h
    cases h
    exact ⟨hk, r, hr, hr'⟩

lemma collected_statements {p q : Parser} {statements : List Statement}
    (h : Collected nextStatement p statements q) :
    ∃ n ts, p.Moves ts q ∧ DerivesBody n ts statements ∧ n ≤ maxNesting - p.depth ∧
      ∀ s ∈ statements, ∀ e ∈ s.expressions, e.height ≤ maxHeight := by
  induction h with
  | nil h =>
    obtain ⟨rfl, -⟩ := nextStatement_eq_none h
    exact ⟨0, [], .refl _, .nil, Nat.zero_le _, by simp⟩
  | @cons p r q s statements h hrest ih =>
    obtain ⟨-, r', hs, hsep⟩ := nextStatement_eq_some h
    obtain ⟨n, ts, hm, hd, hn, hh⟩ := statement_eq_ok hs
    rcases separator_eq_ok hsep with ⟨hc, ha⟩ | ⟨rfl, hb⟩
    · obtain ⟨n', us, hm', hd', hn', hh'⟩ := ih
      rw [depth_advance ha, hm.depth_eq] at hn'
      exact ⟨max n n', _, hm.trans (.step ha hm'), .cons hd hc hd', max_le hn hn',
        List.forall_mem_cons.mpr ⟨hh, hh'⟩⟩
    · -- without a semicolon the block ends here, so no further statement was found
      cases hrest with
      | nil h' =>
        obtain ⟨rfl, -⟩ := nextStatement_eq_none h'
        exact ⟨n, ts, hm, .last hd, hn, by simpa using hh⟩
      | cons h' _ =>
        obtain ⟨hk, -⟩ := nextStatement_eq_some h'
        exact absurd (by simp [hb]) hk

/-! ### Programs -/

/-- A program that is found is derived from the tokens that were moved over. -/
lemma program_eq_ok {p q : Parser} {tree : Program} (h : program p = .ok tree q) :
    ∃ n ts, p.Moves ts q ∧ DerivesProgram n ts tree ∧ n ≤ maxNesting - p.depth ∧
      ∀ e ∈ tree.expressions, e.height ≤ maxHeight := by
  obtain ⟨keyword, p₁, h₁, h⟩ := bind_eq_ok h
  obtain ⟨rfl, hk, ha₁⟩ := expect_eq_ok h₁
  obtain ⟨name, p₂, h₂, h⟩ := bind_eq_ok h
  obtain ⟨rfl, hn, ha₂⟩ := expect_eq_ok h₂
  obtain ⟨semicolon, p₃, h₃, h⟩ := bind_eq_ok h
  obtain ⟨rfl, hc, ha₃⟩ := expect_eq_ok h₃
  obtain ⟨l, p₄, h₄, h⟩ := bind_eq_ok h
  obtain ⟨rfl, hl, ha₄⟩ := expect_eq_ok h₄
  obtain ⟨statements, p₅, h₅, h⟩ := bind_eq_ok h
  obtain ⟨n, ts, hm, hd, hle, hh⟩ := collected_statements (collected_of_collect h₅)
  obtain ⟨r, p₆, h₆, h⟩ := bind_eq_ok h
  obtain ⟨rfl, hr, ha₆⟩ := expect_eq_ok h₆
  obtain ⟨dot, p₇, h₇, h⟩ := bind_eq_ok h
  obtain ⟨rfl, hdot, ha₇⟩ := expect_eq_ok h₇
  obtain ⟨ending, p₈, h₈, h⟩ := bind_eq_ok h
  obtain ⟨rfl, he, ha₈⟩ := expect_eq_ok h₈
  cases h
  rw [depth_advance ha₄, depth_advance ha₃, depth_advance ha₂, depth_advance ha₁] at hle
  refine ⟨n, _, .step ha₁ (.step ha₂ (.step ha₃ (.step ha₄ (hm.trans
    (.step ha₆ (.step ha₇ (.single ha₈))))))), .mk hk hn hc hl hd hr hdot he, hle, ?_⟩
  simp only [Program.expressions, List.mem_flatMap]
  rintro e ⟨s, hs, he⟩
  exact hh s hs e he

end Parse

end Barnamaj
