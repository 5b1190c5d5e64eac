import Barnamaj.Proofs.Code.Simulation

/-!
# Every program has code

The generator can stop at an operator without an operation and at a node of a form that does not
belong where it stands. The tree of a derived program has neither, so that generating its code always
succeeds (`DerivesProgram.exists_code`).
-/

namespace Barnamaj

namespace Generate

variable {α β : Type} {m : Generate α} {f : α → Generate β}

/-- The step never stops the generator. -/
def Succeeds (m : Generate α) : Prop :=
  ∀ g, ∃ a g', m g = .ok a g'

lemma succeeds_pure (a : α) : Succeeds (pure a : Generate α) :=
  fun g => ⟨a, g, rfl⟩

lemma succeeds_newTemporary : Succeeds newTemporary :=
  fun _ => ⟨_, _, rfl⟩

lemma succeeds_emit (i : Instruction) : Succeeds (emit i) :=
  fun _ => ⟨_, _, rfl⟩

lemma Succeeds.bind (hm : Succeeds m) (hf : ∀ a, Succeeds (f a)) : Succeeds (m >>= f) := by
  intro g
  obtain ⟨a, g₁, h₁⟩ := hm g
  obtain ⟨b, g₂, h₂⟩ := hf a g₁
  refine ⟨b, g₂, ?_⟩
  simp only [Bind.bind, EStateM.bind, h₁, h₂]

/-- The kinds of the operators that stand in expressions. -/
def operatorKinds : List TokenKind :=
  .not :: TokenKind.joining

lemma succeeds_opCode {op : Token} (h : op.kind ∈ operatorKinds) : Succeeds (opCode op) := by
  have htable : ∀ k ∈ operatorKinds, (OpCode.ofOperator.lookup k).isSome = true := by decide
  obtain ⟨code, hcode⟩ := Option.isSome_iff_exists.mp (htable _ h)
  rw [opCode, hcode]
  exact succeeds_pure code

/-! ### Expressions -/

lemma succeeds_unary {op : Token} {e : Expression} (hop : op.kind ∈ operatorKinds)
    (he : Succeeds (expression e.toNode)) :
    Succeeds (expression (Expression.unary op e).toNode) :=
  he.bind fun _ => succeeds_newTemporary.bind fun _ => (succeeds_opCode hop).bind fun _ =>
    (succeeds_emit _).bind fun _ => succeeds_pure _

lemma succeeds_binary {op : Token} {a b : Expression} (ha : Succeeds (expression a.toNode))
    (hop : op.kind ∈ operatorKinds) (hb : Succeeds (expression b.toNode)) :
    Succeeds (expression (Expression.binary op a b).toNode) :=
  ha.bind fun _ => hb.bind fun _ => succeeds_newTemporary.bind fun _ =>
    (succeeds_opCode hop).bind fun _ => (succeeds_emit _).bind fun _ => succeeds_pure _

lemma succeeds_expression {l : Level} {n : Nat} {ts : List Token} {e : Expression}
    (h : Derives l n ts e) : Succeeds (expression e.toNode) := by
  induction h with
  | literal _ => exact succeeds_pure _
  | access _ => exact succeeds_pure _
  | not hop _ ih => exact succeeds_unary (by rw [hop]; decide) ih
  | parens _ _ _ ih => exact ih
  | ofFactor _ ih => exact ih
  | multiply _ hop _ iha ihb =>
    exact succeeds_binary iha (.tail _ (TokenKind.mem_joining_of_multiplicative _ hop)) ihb
  | ofTerm _ ih => exact ih
  | sign hop _ ih => exact succeeds_unary (.tail _ (TokenKind.mem_joining_of_additive _ hop)) ih
  | add _ hop _ iha ihb =>
    exact succeeds_binary iha (.tail _ (TokenKind.mem_joining_of_additive _ hop)) ihb
  | ofSimple _ ih => exact ih
  | relate _ hop _ iha ihb =>
    exact succeeds_binary iha (.tail _ (TokenKind.mem_joining_of_relational _ hop)) ihb

/-! ### Statements -/

lemma succeeds_printItems (items : List PrintItem) :
    Succeeds (printItems (items.map PrintItem.toNode)) := by
  induction items with
  | nil => exact succeeds_pure ()
  | cons i items ih =>
    have hitem : Succeeds (expression i.toNode) := by
      cases i with
      | literal t => exact succeeds_pure _
      | access t => exact succeeds_pure _
    exact hitem.bind fun _ => (succeeds_emit _).bind fun _ => ih

lemma succeeds_statement {n : Nat} {ts : List Token} {s : Statement}
    (h : DerivesStatement n ts s) : Succeeds (statement s.toNode) := by
  cases h with
  | assignment _ _ he =>
    rw [Statement.toNode, statement]
    exact (succeeds_expression he).bind fun _ => (succeeds_pure _).bind fun _ =>
      (succeeds_emit _).bind fun _ => succeeds_pure _
  | print _ _ _ _ _ =>
    rw [Statement.toNode, statement]
    exact succeeds_printItems _
  | read _ _ _ _ =>
    rw [Statement.toNode, statement]
    exact (succeeds_pure _).bind fun _ => (succeeds_emit _).bind fun _ => succeeds_pure _

lemma succeeds_statements {n : Nat} {ts : List Token} {ss : List Statement}
    (h : DerivesBody n ts ss) : Succeeds (statements (ss.map Statement.toNode)) := by
  induction h with
  | nil =>
    rw [List.map_nil, statements]
    exact succeeds_pure ()
  | last hs =>
    rw [List.map_cons, List.map_nil, statements, statements]
    exact (succeeds_statement hs).bind fun _ => succeeds_pure ()
  | cons hs _ _ ih =>
    rw [List.map_cons, statements]
    exact (succeeds_statement hs).bind fun _ => ih

/-! ### Programs -/

lemma succeeds_code {p : Program} (h : Succeeds (statements (p.statements.map Statement.toNode))) :
    Succeeds (code p.toNode) := by
  have hset : Succeeds (set ({} : Generator)) := fun _ => ⟨_, _, rfl⟩
  have hget : Succeeds get := fun _ => ⟨_, _, rfl⟩
  exact hset.bind fun _ => h.bind fun _ => (succeeds_emit _).bind fun _ =>
    hget.bind fun _ => succeeds_pure _

end Generate

/-- A derived program has code, and the code ends the run. -/
lemma DerivesProgram.exists_code {n : Nat} {ts : List Token} {p : Program}
    (h : DerivesProgram n ts p) :
    ∃ code, generateCode p.toNode = .ok (code ++ [{ op := .halt }]) := by
  have hstatements : Generate.Succeeds
      (Generate.statements (p.statements.map Statement.toNode)) := by
    obtain ⟨-, -, -, -, hs, -, -, -⟩ := h
    exact Generate.succeeds_statements hs
  obtain ⟨code, g, hcode⟩ := Generate.succeeds_code hstatements {}
  have hok : generateCode p.toNode = .ok code := by rw [generateCode, hcode]
  obtain ⟨g', -, rfl⟩ := generateCode_eq_ok hok
  exact ⟨g'.instructions, hok⟩

end Barnamaj
