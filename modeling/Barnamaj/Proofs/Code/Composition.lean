import Barnamaj.Proofs.Code.Simulation

/-!
# Code is put together from the code of the parts

What a step of a generator does depends on what was generated before only by the temporaries that
were drawn before: after these, it does the same with the temporaries moved up by their number
(`Generate.Resumes`). So the code of two lists of statements is the code of the first one, without
its end, and then that of the second one moved up. A block that stands as a statement of another
block has the code and the faults of its statements (`Node.Inlines`).
-/

namespace Barnamaj

/-! ### Moving temporaries up -/

/-- An operand with the number of a temporary moved up. -/
def Operand.shift (k : ℕ) : Operand → Operand
  | .temporary i => .temporary (i + k)
  | o => o

/-- An instruction with the temporaries moved up. -/
def Instruction.shift (k : ℕ) (i : Instruction) : Instruction where
  op := i.op
  result := i.result.map (Operand.shift k)
  arg1 := i.arg1.map (Operand.shift k)
  arg2 := i.arg2.map (Operand.shift k)

namespace Generator

/-- A generator that has done what the first one has, and then what the second one has. -/
instance : Append Generator where
  append g h := {
    instructions := g.instructions ++ h.instructions.map (Instruction.shift g.temporaries)
    temporaries := g.temporaries + h.temporaries
    labels := g.labels + h.labels }

lemma append_eq (g h : Generator) : g ++ h = {
    instructions := g.instructions ++ h.instructions.map (Instruction.shift g.temporaries)
    temporaries := g.temporaries + h.temporaries
    labels := g.labels + h.labels } :=
  rfl

@[simp]
lemma append_empty (g : Generator) : g ++ {} = g := by
  simp [append_eq]

/-- What a step gives after what a generator has done. -/
def resume {α : Type} (g : Generator) (shift : α → α) :
    EStateM.Result GenerationFault Generator α → EStateM.Result GenerationFault Generator α
  | .ok a h => .ok (shift a) (g ++ h)
  | .error f h => .error f (g ++ h)

end Generator

lemma Node.body_block (p : Position) (ns : List Node) : (block p ns).body = block p ns :=
  rfl

namespace Generate

variable {α β : Type} {g : Generator} {σ : α → α} {τ : β → β}

/-- After what a generator has done, the second step does what the first one does without it. -/
def Resumes (g : Generator) (σ : α → α) (m m' : Generate α) : Prop :=
  ∀ h, m' (g ++ h) = g.resume σ (m h)

namespace Resumes

lemma pure (a : α) : Resumes g σ (pure a) (pure (σ a)) :=
  fun _ => rfl

lemma throw (f : GenerationFault) : Resumes g σ (throw f) (throw f) :=
  fun _ => rfl

lemma bind {m m' : Generate α} {n n' : α → Generate β} (hm : Resumes g σ m m')
    (hn : ∀ a, Resumes g τ (n a) (n' (σ a))) : Resumes g τ (m >>= n) (m' >>= n') := by
  intro h
  simp only [Bind.bind, EStateM.bind, hm h]
  cases m h with
  | ok a h' => exact hn a h'
  | error f h' => rfl

lemma newTemporary : Resumes g (Operand.shift g.temporaries) newTemporary newTemporary := by
  intro h
  simp only [Generate.newTemporary, Generator.resume, Operand.shift, Generator.append_eq]
  rw [Nat.add_assoc, Int.natCast_add, Int.add_comm]

lemma emit (i : Instruction) : Resumes g (Instruction.shift g.temporaries) (emit i)
    (emit (i.shift g.temporaries)) := by
  intro h
  simp [Generate.emit, Generator.resume, Generator.append_eq]

lemma opCode (operator : Token) : Resumes g id (opCode operator) (opCode operator) := by
  rw [Generate.opCode]
  split
  · exact pure _
  · exact throw _

/-- The code of an expression, moved up. -/
lemma expression : ∀ n : Node,
    Resumes g (Operand.shift g.temporaries) (expression n) (expression n)
  | .binary _ operator left right => by
    rw [Generate.expression]
    refine (expression left).bind fun a => (expression right).bind fun b => ?_
    exact newTemporary.bind fun _ => (opCode operator).bind fun _ => (emit _).bind fun _ => pure _
  | .unary _ operator operand => by
    rw [Generate.expression]
    refine (expression operand).bind fun a => newTemporary.bind fun _ => ?_
    exact (opCode operator).bind fun _ => (emit _).bind fun _ => pure _
  | .access _ name _ => pure (Operand.named name)
  | .literal _ kind value _ => pure (Operand.constant value (some kind))
  | .program _ _ _ => throw _
  | .block _ _ => throw _
  | .assignment _ _ _ => throw _
  | .print _ _ _ => throw _
  | .read _ _ _ => throw _
  | .bare _ _ => throw _

lemma target (n : Node) : Resumes g (Operand.shift g.temporaries) (target n) (target n) := by
  cases n with
  | access _ name _ => exact pure (Operand.named name)
  | program _ name _ => exact pure (Operand.named name)
  | _ => exact throw _

lemma printItems : ∀ items : List Node, Resumes g id (printItems items) (printItems items)
  | [] => pure ()
  | item :: rest => by
    rw [Generate.printItems]
    exact (expression item).bind fun _ => (emit _).bind fun _ => printItems rest

mutual

/-- The code of a statement, moved up. -/
lemma statement : ∀ n : Node, Resumes g id (statement n) (statement n)
  | .assignment _ goal e => by
    rw [Generate.statement]
    exact (expression e).bind fun _ => (target goal).bind fun _ => (emit _).bind fun _ => pure _
  | .print _ items _ => by
    rw [Generate.statement]
    exact printItems items
  | .read _ goal _ => by
    rw [Generate.statement]
    exact (target goal).bind fun _ => (emit _).bind fun _ => pure _
  | .block _ nodes => by
    rw [Generate.statement]
    exact statements nodes
  | .program _ _ _ => by rw [Generate.statement]; exact throw _
  | .binary _ _ _ _ => by rw [Generate.statement]; exact throw _
  | .unary _ _ _ => by rw [Generate.statement]; exact throw _
  | .access _ _ _ => by rw [Generate.statement]; exact throw _
  | .literal _ _ _ _ => by rw [Generate.statement]; exact throw _
  | .bare _ _ => by rw [Generate.statement]; exact throw _

/-- The code of several statements, moved up. -/
lemma statements : ∀ ns : List Node, Resumes g id (statements ns) (statements ns)
  | [] => by rw [Generate.statements]; exact pure ()
  | n :: rest => by
    rw [Generate.statements]
    exact (statement n).bind fun _ => statements rest

end

end Resumes

/-! ### Lists of statements -/

lemma statements_append (A B : List Node) :
    statements (A ++ B) = statements A >>= fun _ => statements B := by
  induction A with
  | nil => rw [List.nil_append, statements, pure_bind]
  | cons n A ih => rw [List.cons_append, statements, statements, ih, bind_assoc]

/-- A node stands for its statements. -/
lemma statements_statements (n : Node) : statements n.statements = statement n := by
  have hone : statements [n] = statement n := by
    rw [statements, statements]
    exact bind_pure _
  cases n with
  | block _ _ => rw [Node.statements, statement]
  | _ => exact hone

/-- The code of a tree is that of its body and an end. -/
lemma code_eq (tree : Node) (g : Generator) : code tree g =
    match statement tree.body {} with
    | .ok _ k => .ok (k.instructions ++ [{ op := .halt }])
        { k with instructions := k.instructions ++ [{ op := .halt }] }
    | .error f k => .error f k := by
  rw [← statements_statements]
  change (statements tree.body.statements >>= fun _ => _) {} = _
  simp only [bind, EStateM.bind]
  cases statements tree.body.statements {} <;> rfl

lemma code_eq_ok_iff {tree : Node} {c : List Instruction} {g h : Generator} :
    code tree g = .ok c h ↔ ∃ k, statement tree.body {} = .ok () k ∧
      c = k.instructions ++ [{ op := .halt }] ∧
      h = { k with instructions := k.instructions ++ [{ op := .halt }] } := by
  rw [code_eq]
  cases statement tree.body {} with
  | ok _ k => simp [eq_comm]
  | error f k => simp

lemma code_eq_error_iff {tree : Node} {f : GenerationFault} {g h : Generator} :
    code tree g = .error f h ↔ statement tree.body {} = .error f h := by
  rw [code_eq]
  cases statement tree.body {} with
  | ok _ k => simp
  | error f k => simp

/-- The code of a list of statements comes first in that of a longer list, and what follows is
moved up. -/
lemma statement_block_append (p q r : Position) (A B : List Node) :
    statement (.block r (A ++ B)) {} =
      match statement (.block p A) {} with
      | .ok _ h => h.resume id (statement (.block q B) {})
      | .error f h => .error f h := by
  simp only [statement, statements_append, bind, EStateM.bind]
  cases statements A {} with
  | ok _ h => simpa using Resumes.statements (g := h) B {}
  | error f h => rfl

end Generate

/-! ### Blocks in blocks -/

namespace Node

/-- The second tree is the first one with a block that stands as a statement of another block
replaced by its statements, in one place anywhere in the tree. -/
inductive Inlines : Node → Node → Prop where
  | block (p q : Position) (before inner after : List Node) :
      Inlines (.block p (before ++ .block q inner :: after)) (.block p (before ++ inner ++ after))
  | statement (p : Position) (before after : List Node) {n n' : Node} (h : Inlines n n') :
      Inlines (.block p (before ++ n :: after)) (.block p (before ++ n' :: after))
  | program (p : Position) (name : String) {n n' : Node} (h : Inlines n n') :
      Inlines (.program p name n) (.program p name n')
  | assigned (p : Position) (e : Node) {n n' : Node} (h : Inlines n n') :
      Inlines (.assignment p n e) (.assignment p n' e)
  | assignment (p : Position) (goal : Node) {n n' : Node} (h : Inlines n n') :
      Inlines (.assignment p goal n) (.assignment p goal n')
  | print (p : Position) (before after : List Node) (t : Option Token) {n n' : Node}
      (h : Inlines n n') :
      Inlines (.print p (before ++ n :: after) t) (.print p (before ++ n' :: after) t)
  | read (p : Position) (t : Option Token) {n n' : Node} (h : Inlines n n') :
      Inlines (.read p n t) (.read p n' t)
  | left (p : Position) (operator : Token) (right : Node) {n n' : Node} (h : Inlines n n') :
      Inlines (.binary p operator n right) (.binary p operator n' right)
  | right (p : Position) (operator : Token) (left : Node) {n n' : Node} (h : Inlines n n') :
      Inlines (.binary p operator left n) (.binary p operator left n')
  | unary (p : Position) (operator : Token) {n n' : Node} (h : Inlines n n') :
      Inlines (.unary p operator n) (.unary p operator n')

/-! ### Checks of names -/

lemma checkAll_append (declared : String → Bool) (A B : List Node) :
    checkAll declared (A ++ B) = checkAll declared A >>= fun _ => checkAll declared B := by
  induction A with
  | nil => rfl
  | cons n A ih =>
    rw [List.cons_append, checkAll, checkAll, ih]
    cases n.check declared <;> rfl

/-- A node stands for its statements. -/
lemma checkAll_statements (declared : String → Bool) (n : Node) :
    checkAll declared n.statements = n.check declared := by
  have hone : checkAll declared [n] = n.check declared := by
    simp only [checkAll]
    cases n.check declared <;> rfl
  cases n with
  | block _ _ => rw [statements, check]
  | _ => exact hone

namespace Inlines

variable {n n' : Node}

lemma body (h : n.Inlines n') : n.body.Inlines n'.body := by
  cases h with
  | program _ _ h => exact h
  | _ => constructor <;> assumption

lemma target_eq (h : n.Inlines n') : Generate.target n = Generate.target n' := by
  cases h <;> rfl

lemma expression_eq (h : n.Inlines n') : Generate.expression n = Generate.expression n' := by
  induction h with
  | left _ _ _ _ ih => simp only [Generate.expression, ih]
  | right _ _ _ _ ih => simp only [Generate.expression, ih]
  | unary _ _ _ ih => simp only [Generate.expression, ih]
  | _ => rfl

lemma printItems_eq (h : n.Inlines n') (before after : List Node) :
    Generate.printItems (before ++ n :: after) = Generate.printItems (before ++ n' :: after) := by
  induction before with
  | nil => simp only [List.nil_append, Generate.printItems, h.expression_eq]
  | cons _ before ih => simp only [List.cons_append, Generate.printItems, ih]

/-- The code of a block in a block is that of its statements. -/
lemma statement_eq (h : n.Inlines n') : Generate.statement n = Generate.statement n' := by
  induction h with
  | block p q before inner after =>
    simp only [Generate.statement, Generate.statements_append, Generate.statements, bind_assoc]
  | statement p before after h ih =>
    simp only [Generate.statement, Generate.statements_append, Generate.statements, ih]
  | assigned p e h ih => simp only [Generate.statement, h.target_eq]
  | assignment p goal h ih => simp only [Generate.statement, h.expression_eq]
  | print p before after t h ih => simp only [Generate.statement, h.printItems_eq]
  | read p t h ih => simp only [Generate.statement, h.target_eq]
  | _ => simp only [Generate.statement, form]

/-- The faults of a block in a block are those of its statements. -/
lemma check_eq (declared : String → Bool) (h : n.Inlines n') :
    n.check declared = n'.check declared := by
  induction h with
  | block p q before inner after =>
    simp only [check, checkAll_append, checkAll]
    cases checkAll declared before <;> cases checkAll declared inner <;> rfl
  | statement p before after h ih => simp only [check, checkAll_append, checkAll, ih]
  | assigned p e h ih => cases h <;> simp only [check]
  | assignment p goal h ih => cases goal <;> simp only [check, ih]
  | print p before after t h ih => simp only [check, checkAll_append, checkAll, ih]
  | read p t h ih => cases h <;> simp only [check]
  | left p operator right h ih => simp only [check, ih]
  | right p operator left h ih => simp only [check, ih]
  | unary p operator h ih => simp only [check, ih]
  | program p name h ih => simp only [check, form]

end Inlines

end Node

/-- Code is put together from the code of the parts. If two lists of statements have code, then one
after the other they have the code of the first one, without its end, followed by the code of the
second one, with the temporaries moved up by as many as are drawn for the first one. The fault of
the first list, or else that of the second one, is that of both. Where a block stands as a statement
of another block, its statements can stand in its place: the code or the fault is the same, and the
check of names finds the same, whatever scopes are open. -/
theorem code_compositional (p q r : Position) (A B : List Node) (g₁ g₂ g₃ : Generator) :
    (∀ a h b h', Generate.code (.block p A) g₁ = .ok a h →
      Generate.code (.block q B) g₂ = .ok b h' →
      ∃ a' k, a = a' ++ [{ op := .halt }] ∧ Generate.code (.block r (A ++ B)) g₃ =
        .ok (a' ++ b.map (Instruction.shift h.temporaries)) k) ∧
    (∀ f h, Generate.code (.block p A) g₁ = .error f h →
      ∃ k, Generate.code (.block r (A ++ B)) g₃ = .error f k) ∧
    (∀ a h f h', Generate.code (.block p A) g₁ = .ok a h →
      Generate.code (.block q B) g₂ = .error f h' →
      ∃ k, Generate.code (.block r (A ++ B)) g₃ = .error f k) ∧
    ∀ tree tree' : Node, tree.Inlines tree' →
      Generate.code tree = Generate.code tree' ∧
        ∀ env : Environment, env.analyze tree = env.analyze tree' := by
  refine ⟨fun a h b h' hA hB => ?_, fun f h hA => ?_, fun a h f h' hA hB => ?_,
    fun tree tree' htree => ?_⟩
  · obtain ⟨k, hk, rfl, rfl⟩ := Generate.code_eq_ok_iff.mp hA
    obtain ⟨k', hk', rfl, rfl⟩ := Generate.code_eq_ok_iff.mp hB
    refine ⟨k.instructions, _, rfl, Generate.code_eq_ok_iff.mpr ⟨k ++ k', ?_, ?_, rfl⟩⟩
    · rw [Node.body_block] at hk hk' ⊢
      rw [Generate.statement_block_append p q, hk, hk']
      rfl
    · simp [Generator.append_eq, Instruction.shift]
  · rw [Generate.code_eq_error_iff, Node.body_block] at hA
    refine ⟨h, Generate.code_eq_error_iff.mpr ?_⟩
    rw [Node.body_block, Generate.statement_block_append p q, hA]
  · obtain ⟨k, hk, -, -⟩ := Generate.code_eq_ok_iff.mp hA
    rw [Generate.code_eq_error_iff, Node.body_block] at hB
    refine ⟨k ++ h', Generate.code_eq_error_iff.mpr ?_⟩
    rw [Node.body_block] at hk ⊢
    rw [Generate.statement_block_append p q, hk, hB]
    rfl
  · refine ⟨funext fun g => ?_, fun env => ?_⟩
    · rw [Generate.code_eq, Generate.code_eq, htree.body.statement_eq]
    · rw [Environment.analyze, Environment.analyze, Node.checkAll_statements,
        Node.checkAll_statements, htree.body.check_eq]

/-- Two lists that draw a temporary each, also with one in a block, and a list without code. -/
theorem second_list_moved_up :
    ∃ (A B C : List Node) (a b : List Instruction) (h h' : Generator),
      Generate.code (.block ⟨1, 1⟩ A) {} = .ok a h ∧ Generate.code (.block ⟨1, 1⟩ B) {} = .ok b h' ∧
      (∃ a' k, a = a' ++ [{ op := .halt }] ∧ Generate.code (.block ⟨1, 1⟩ (A ++ B)) {} =
        .ok (a' ++ b.map (Instruction.shift h.temporaries)) k) ∧
      b.map (Instruction.shift h.temporaries) =
        [{ op := .not, result := some (.temporary 1), arg1 := some (.named "ص") },
          { op := .print, arg1 := some (.temporary 1) }, { op := .halt }] ∧
      (∃ k, Generate.code (.block ⟨1, 1⟩ (C ++ A)) {} = .error (.noCode "Statement" ⟨3, 1⟩) k) ∧
      (∃ k, Generate.code (.block ⟨1, 1⟩ (A ++ C)) {} = .error (.noCode "Statement" ⟨3, 1⟩) k) ∧
      Environment.initial.analyze (.block ⟨1, 1⟩ (A ++ .block ⟨2, 1⟩ B :: C)) =
        Environment.initial.analyze (.block ⟨1, 1⟩ (A ++ B ++ C)) := by
  let A : List Node := [.assignment ⟨1, 1⟩ (.access ⟨1, 1⟩ "س" none)
    (.unary ⟨1, 5⟩ ⟨.minus, "-", .absent, ⟨1, 5⟩⟩ (.access ⟨1, 6⟩ "ص" none))]
  let B : List Node := [.print ⟨2, 1⟩ [.unary ⟨2, 6⟩ ⟨.not, "!", .absent, ⟨2, 6⟩⟩
    (.access ⟨2, 7⟩ "ص" none)] none]
  let C : List Node := [.bare ⟨3, 1⟩ .statement]
  have hA : Generate.code (.block ⟨1, 1⟩ A) {} = .ok _ _ := rfl
  have hB : Generate.code (.block ⟨1, 1⟩ B) {} = .ok _ _ := rfl
  have hC : Generate.code (.block ⟨1, 1⟩ C) {} = .error (.noCode "Statement" ⟨3, 1⟩) _ := rfl
  obtain ⟨hAB, -, -, hinline⟩ := code_compositional ⟨1, 1⟩ ⟨1, 1⟩ ⟨1, 1⟩ A B {} {} {}
  obtain ⟨-, hCA, -, -⟩ := code_compositional ⟨1, 1⟩ ⟨1, 1⟩ ⟨1, 1⟩ C A {} {} {}
  obtain ⟨-, -, hAC, -⟩ := code_compositional ⟨1, 1⟩ ⟨1, 1⟩ ⟨1, 1⟩ A C {} {} {}
  exact ⟨A, B, C, _, _, _, _, hA, hB, hAB _ _ _ _ hA hB, by decide, hCA _ _ hC,
    hAC _ _ _ _ hA hC, (hinline _ _ (.block ⟨1, 1⟩ ⟨2, 1⟩ A B C)).2 _⟩

end Barnamaj
