import Barnamaj.Compilation
import Barnamaj.Proofs.Code.Names
import Barnamaj.Proofs.Code.Semantics

/-!
# The code of a program does what the program does

A run of the code and a run of the tree go through worlds that agree on everything but the
temporaries (`World.Agree`). The code of an expression leaves its value in an operand that later code
does not change: it stores into temporaries that were not drawn before, and into nothing else
(`World.Spares`).
-/

namespace Barnamaj

variable {V : Type} {I : Interpretation V} {input : ℕ → V}

/-! ### Related worlds -/

namespace World

/-- The worlds agree on everything but temporaries. -/
structure Agree (w w' : World V) : Prop where
  consumed : w'.consumed = w.consumed
  printed : w'.printed = w.printed
  applied : w'.applied = w.applied
  store {name : String} : ¬ IsTemporaryName name → w'.store name = w.store name

/-- From one world to the other, no name has changed its value but those of the temporaries from a
number on. -/
def Spares (n : ℕ) (w w' : World V) : Prop :=
  ∀ name, (∀ k, n ≤ k → name ≠ (Operand.temporary k).name) → w'.store name = w.store name

variable {n n' : ℕ} {w w' w'' : World V}

lemma Spares.refl (n : ℕ) (w : World V) : Spares n w w :=
  fun _ _ => rfl

lemma Spares.trans (h : Spares n w w') (h' : Spares n' w' w'') (hn : n ≤ n') :
    Spares n w w'' := by
  intro name hname
  rw [h' name fun k hk => hname k (hn.trans hk), h name hname]

lemma Spares.assign {k : ℕ} (h : Spares n w w') (hk : n ≤ k) (v : V) :
    Spares n w (w'.assign (Operand.temporary k).name v) := by
  intro name hname
  rw [store_assign_of_ne (hname k hk), h name hname]

lemma Spares.note {op : OpCode} {args : List V} (h : Spares n w w') :
    Spares n w (w'.note op args) :=
  h

lemma Agree.note (h : Agree w w') (op : OpCode) (args : List V) :
    Agree (w.note op args) (w'.note op args) :=
  ⟨h.consumed, h.printed, by simp only [World.note, h.applied], h.store⟩

lemma Agree.print (h : Agree w w') (v : V) : Agree (w.print v) (w'.print v) :=
  ⟨h.consumed, by simp only [World.print, h.printed], h.applied, h.store⟩

lemma Agree.assign (h : Agree w w') (name : String) (v : V) :
    Agree (w.assign name v) (w'.assign name v) := by
  refine ⟨h.consumed, h.printed, h.applied, fun {x} hx => ?_⟩
  by_cases hxn : x = name
  · rw [hxn, store_assign_self, store_assign_self]
  · rw [store_assign_of_ne hxn, store_assign_of_ne hxn, h.store hx]

/-- A value may be given to a temporary on one side only. -/
lemma Agree.assign_temporary (h : Agree w w') (k : ℕ) (v : V) :
    Agree w (w'.assign (Operand.temporary k).name v) := by
  refine ⟨h.consumed, h.printed, h.applied, fun {x} hx => ?_⟩
  have hne : x ≠ (Operand.temporary k).name := fun hc => hx ⟨k, hc⟩
  rw [store_assign_of_ne hne, h.store hx]

lemma Agree.receive (h : Agree w w') (input : ℕ → V) (name : String) :
    Agree (w.receive input name) (w'.receive input name) := by
  refine ⟨by simp only [World.receive, h.consumed], h.printed, h.applied, fun {x} hx => ?_⟩
  rw [World.receive, World.receive, h.consumed]
  exact (h.assign name (input w.consumed)).store hx

end World

/-! ### Operands -/

/-- The value of the operand does not depend on the temporaries from a number on. -/
def Operand.Settled (n : ℕ) (o : Operand) : Prop :=
  o.isConstant = true ∨ ∀ k, n ≤ k → o.name ≠ (Operand.temporary k).name

lemma Operand.Settled.value_eq {n : ℕ} {o : Operand} {w w' : World V} (ho : o.Settled n)
    (h : w.Spares n w') : w'.value I o = w.value I o := by
  rw [World.value, World.value]
  split
  · rfl
  · next hc =>
    rcases ho with ho | ho
    · exact absurd ho hc
    · exact h o.name ho

lemma Operand.settled_temporary (n : ℕ) : (Operand.temporary n).Settled (n + 1) := by
  right
  intro k hk heq
  have := temporary_name_injective heq
  omega

lemma Operand.settled_named {name : String} (h : ¬ IsTemporaryName name) (n : ℕ) :
    (Operand.named name).Settled n :=
  Or.inr fun k _ heq => h ⟨k, heq⟩

/-! ### Expressions -/

/-- The code, with the temporaries from `n` up to `n'`, leaves the value of the expression in the
operand. -/
structure Computes (I : Interpretation V) (input : ℕ → V) (e : Expression) (n n' : ℕ)
    (c : List Instruction) (o : Operand) : Prop where
  le : n ≤ n'
  settled : o.Settled n'
  exec {w w' : World V} : w.Agree w' → ∃ v u u', e.eval I w = some (v, u) ∧
    Machine.exec I input c w' = some u' ∧ u.Agree u' ∧ w'.Spares n u' ∧ u'.value I o = v

lemma computes_literal (t : Token) (n : ℕ) :
    Computes I input (.literal t) n n [] (.constant t.value (some t.kind)) := by
  refine ⟨le_rfl, Or.inl rfl, fun {w w'} h => ?_⟩
  exact ⟨_, w, w', rfl, rfl, h, .refl n w', rfl⟩

lemma computes_access {t : Token} (ht : ¬ IsTemporaryName t.lexeme) (n : ℕ) :
    Computes I input (.access t) n n [] (.named t.lexeme) := by
  refine ⟨le_rfl, Operand.settled_named ht n, fun {w w'} h => ?_⟩
  exact ⟨_, w, w', rfl, rfl, h, .refl n w', h.store ht⟩

variable {op : Token} {o : OpCode} {a b : Expression} {n n₁ n₂ : ℕ} {ca cb : List Instruction}
  {oa ob : Operand}

/-- An operation stores its result in a temporary of its own, which changes nothing else. -/
lemma World.Agree.note_assign {w w' : World V} (h : w.Agree w') (args : List V) (k : ℕ) (v : V) :
    (w.note o args).Agree ((w'.note o args).assign (Operand.temporary k).name v) :=
  (h.note o args).assign_temporary k v

lemma World.value_assign_temporary (w : World V) (k : ℕ) (v : V) :
    (w.assign (Operand.temporary k).name v).value I (.temporary k) = v := by
  simp [World.value, Operand.isConstant]

lemma Computes.unary (ha : Computes I input a n n₁ ca oa) (hop : op.kind.operation? = some o) :
    Computes I input (.unary op a) n (n₁ + 1)
      (ca ++ [{ op := o, result := some (.temporary n₁), arg1 := some oa }]) (.temporary n₁) := by
  refine ⟨Nat.le_succ_of_le ha.le, Operand.settled_temporary n₁, fun {w w'} h => ?_⟩
  obtain ⟨v, u, u', heval, hexec, hagree, hspares, rfl⟩ := ha.exec h
  have hstep := Machine.step_unary I input (TokenKind.computes_of_operation? hop)
    (.temporary n₁) oa u'
  refine ⟨_, _, _, Expression.eval_unary heval hop,
    Machine.exec_append hexec ((Machine.exec_singleton _).trans hstep), ?_, ?_, ?_⟩
  · exact hagree.note_assign _ n₁ _
  · exact hspares.note.assign ha.le _
  · exact World.value_assign_temporary _ n₁ _

lemma Computes.binary (ha : Computes I input a n n₁ ca oa) (hb : Computes I input b n₁ n₂ cb ob)
    (hop : op.kind.operation? = some o) :
    Computes I input (.binary op a b) n (n₂ + 1)
      (ca ++ (cb ++
        [{ op := o, result := some (.temporary n₂), arg1 := some oa, arg2 := some ob }]))
      (.temporary n₂) := by
  have hle := ha.le.trans hb.le
  refine ⟨Nat.le_succ_of_le hle, Operand.settled_temporary n₂, fun {w w'} h => ?_⟩
  obtain ⟨va, u₁, u₁', heval₁, hexec₁, hagree₁, hspares₁, rfl⟩ := ha.exec h
  obtain ⟨vb, u₂, u₂', heval₂, hexec₂, hagree₂, hspares₂, rfl⟩ := hb.exec hagree₁
  -- the code of the right operand has not changed the value of the left one
  have hleft := ha.settled.value_eq hspares₂ (I := I)
  have hstep := Machine.step_binary I input (TokenKind.computes_of_operation? hop)
    (.temporary n₂) oa ob u₂'
  rw [hleft] at hstep
  refine ⟨_, _, _, Expression.eval_binary heval₁ heval₂ hop,
    Machine.exec_append hexec₁ (Machine.exec_append hexec₂ ((Machine.exec_singleton _).trans hstep)),
    ?_, ?_, ?_⟩
  · exact hagree₂.note_assign _ n₂ _
  · exact (hspares₁.trans hspares₂ ha.le).note.assign hle _
  · exact World.value_assign_temporary _ n₂ _

namespace Generate

variable (I : Interpretation V) (input : ℕ → V)

lemma bind_eq_ok {α β : Type} {m : Generate α} {f : α → Generate β} {g g' : Generator} {b : β}
    (h : (m >>= f) g = .ok b g') : ∃ a r, m g = .ok a r ∧ f a r = .ok b g' := by
  simp only [bind, EStateM.bind] at h
  split at h
  · next a r hm => exact ⟨a, r, hm, h⟩
  · cases h

lemma opCode_eq_ok {operator : Token} {op : OpCode} {g g' : Generator}
    (h : opCode operator g = .ok op g') : g' = g ∧ operator.kind.operation? = some op := by
  have htable : ∀ k, OpCode.ofOperator.lookup k = TokenKind.operation? k := by
    intro k
    cases k <;> rfl
  cases hop : operator.kind.operation? with
  | none =>
    rw [opCode, htable, hop] at h
    cases h
  | some op' =>
    rw [opCode, htable, hop] at h
    cases h
    exact ⟨rfl, rfl⟩

/-- The code of an expression leaves its value in the operand that is answered. -/
lemma computes_of_expression {e : Expression} {g g' : Generator} {o : Operand}
    (hnames : ∀ t ∈ e.reads, ¬ IsTemporaryName t.lexeme) (h : expression e.toNode g = .ok o g') :
    ∃ c, g'.instructions = g.instructions ++ c ∧
      Computes I input e g.temporaries g'.temporaries c o := by
  induction e generalizing g g' o with
  | literal t =>
    cases h
    exact ⟨[], by simp, computes_literal t _⟩
  | access t =>
    cases h
    exact ⟨[], by simp, computes_access (hnames t (by simp [Expression.reads])) _⟩
  | unary op operand ih =>
    obtain ⟨a, g₁, h₁, h⟩ := bind_eq_ok h
    obtain ⟨c, hc, hcomp⟩ := ih hnames h₁
    obtain ⟨r, g₂, h₂, h⟩ := bind_eq_ok h
    cases h₂
    obtain ⟨op', g₃, h₃, h⟩ := bind_eq_ok h
    obtain ⟨rfl, hop⟩ := opCode_eq_ok h₃
    cases h
    refine ⟨_, ?_, hcomp.unary hop⟩
    simp [hc]
  | binary op left right ihl ihr =>
    simp only [Expression.reads, List.forall_mem_append] at hnames
    obtain ⟨a, g₁, h₁, h⟩ := bind_eq_ok h
    obtain ⟨ca, hca, hcompa⟩ := ihl hnames.1 h₁
    obtain ⟨b, g₂, h₂, h⟩ := bind_eq_ok h
    obtain ⟨cb, hcb, hcompb⟩ := ihr hnames.2 h₂
    obtain ⟨r, g₃, h₃, h⟩ := bind_eq_ok h
    cases h₃
    obtain ⟨op', g₄, h₄, h⟩ := bind_eq_ok h
    obtain ⟨rfl, hop⟩ := opCode_eq_ok h₄
    cases h
    refine ⟨_, ?_, hcompa.binary hcompb hop⟩
    simp [hca, hcb]

end Generate

/-! ### Statements -/

/-- The code does what the run does, up to temporaries. -/
def Performs (I : Interpretation V) (input : ℕ → V) (run : World V → Option (World V))
    (c : List Instruction) : Prop :=
  ∀ w w' : World V, w.Agree w' → ∃ u u', run w = some u ∧
    Machine.exec I input c w' = some u' ∧ u.Agree u'

lemma performs_nil : Performs I input some [] :=
  fun w w' h => ⟨w, w', rfl, rfl, h⟩

lemma Performs.append {r r' : World V → Option (World V)} {c c' : List Instruction}
    (h : Performs I input r c) (h' : Performs I input r' c') :
    Performs I input (fun w => (r w).bind r') (c ++ c') := by
  intro w w' hw
  obtain ⟨u, u', hr, hc, hu⟩ := h w w' hw
  obtain ⟨x, x', hr', hc', hx⟩ := h' u u' hu
  refine ⟨x, x', ?_, Machine.exec_append hc hc', hx⟩
  simp only [hr, Option.bind_some, hr']

namespace Generate

variable (I : Interpretation V) (input : ℕ → V)

/-- An item has no code but the instruction that prints it. -/
lemma agree_of_printItem {i : PrintItem} {g g' : Generator} {o : Operand}
    (hnames : ∀ t ∈ i.reads, ¬ IsTemporaryName t.lexeme) (h : expression i.toNode g = .ok o g') :
    g' = g ∧ ∀ w w' : World V, w.Agree w' → (i.exec I w).Agree (w'.print (w'.value I o)) := by
  cases i with
  | literal t =>
    cases h
    exact ⟨rfl, fun w w' hw => hw.print _⟩
  | access t =>
    cases h
    refine ⟨rfl, fun w w' hw => ?_⟩
    have hvalue : w'.value I (.named t.lexeme) = w.store t.lexeme :=
      hw.store (hnames t (by simp [PrintItem.reads]))
    rw [hvalue]
    exact hw.print _

lemma performs_of_printItems {items : List PrintItem} {g g' : Generator}
    (hnames : ∀ i ∈ items, ∀ t ∈ i.reads, ¬ IsTemporaryName t.lexeme)
    (h : printItems (items.map PrintItem.toNode) g = .ok () g') :
    ∃ c, g'.instructions = g.instructions ++ c ∧
      Performs I input (fun w => some (items.foldl (PrintItem.exec I) w)) c := by
  induction items generalizing g with
  | nil =>
    cases h
    exact ⟨[], by simp, performs_nil⟩
  | cons i items ih =>
    rw [List.forall_mem_cons] at hnames
    obtain ⟨o, g₁, h₁, hrest⟩ := bind_eq_ok h
    obtain ⟨rfl, hagree⟩ := agree_of_printItem I hnames.1 h₁
    obtain ⟨_, g₂, h₂, hrest⟩ := bind_eq_ok hrest
    cases h₂
    obtain ⟨c, hc, hperf⟩ := ih hnames.2 hrest
    refine ⟨{ op := .print, arg1 := some o } :: c, by simp [hc], fun w w' hw => ?_⟩
    obtain ⟨u, u', hu, hexec, hag⟩ := hperf _ _ (hagree w w' hw)
    have hstep := (Machine.exec_singleton _).trans (Machine.step_print I input o w')
    exact ⟨u, u', hu, Machine.exec_append hstep hexec, hag⟩

/-- The code of a statement does what the statement does. -/
lemma performs_of_statement {s : Statement} {g g' : Generator}
    (hnames : ∀ t ∈ s.reads, ¬ IsTemporaryName t.lexeme) (h : statement s.toNode g = .ok () g') :
    ∃ c, g'.instructions = g.instructions ++ c ∧
      Performs I input (fun w => s.exec I input w) c := by
  cases s with
  | assignment target e =>
    rw [Statement.toNode, statement] at h
    obtain ⟨o, g₁, h₁, h⟩ := bind_eq_ok h
    obtain ⟨c, hc, hcomp⟩ := computes_of_expression I input hnames h₁
    cases h
    refine ⟨c ++ [{ op := .assign, result := some (.named target.lexeme), arg1 := some o }],
      by simp [hc], fun w w' hw => ?_⟩
    obtain ⟨v, u, u', heval, hexec, hagree, -, rfl⟩ := hcomp.exec hw
    have hstep := (Machine.exec_singleton _).trans
      (Machine.step_assign I input (.named target.lexeme) o u')
    refine ⟨_, _, ?_, Machine.exec_append hexec hstep, hagree.assign target.lexeme _⟩
    simp only [Statement.exec, heval]
    rfl
  | print keyword items =>
    rw [Statement.toNode, statement] at h
    refine performs_of_printItems I input (fun i hi t ht => hnames t ?_) h
    exact List.mem_flatMap.mpr ⟨i, hi, ht⟩
  | read keyword target =>
    rw [Statement.toNode, statement] at h
    cases h
    refine ⟨[{ op := .read, result := some (.named target.lexeme) }], rfl, fun w w' hw => ?_⟩
    have hstep := (Machine.exec_singleton _).trans
      (Machine.step_read I input (.named target.lexeme) w')
    exact ⟨_, _, rfl, hstep, hw.receive input target.lexeme⟩

/-- The code of several statements does what they do one after the other. -/
lemma performs_of_statements {ss : List Statement} {g g' : Generator}
    (hnames : ∀ s ∈ ss, ∀ t ∈ s.reads, ¬ IsTemporaryName t.lexeme)
    (h : statements (ss.map Statement.toNode) g = .ok () g') :
    ∃ c, g'.instructions = g.instructions ++ c ∧
      Performs I input (fun w => ss.foldlM (Statement.exec I input) w) c := by
  induction ss generalizing g with
  | nil =>
    rw [List.map_nil, statements] at h
    cases h
    exact ⟨[], by simp, performs_nil⟩
  | cons s ss ih =>
    rw [List.map_cons, statements] at h
    rw [List.forall_mem_cons] at hnames
    obtain ⟨_, g₁, h₁, h⟩ := bind_eq_ok h
    obtain ⟨c₁, hc₁, hperf₁⟩ := performs_of_statement I input hnames.1 h₁
    obtain ⟨c₂, hc₂, hperf₂⟩ := ih hnames.2 h
    refine ⟨c₁ ++ c₂, by simp [hc₁, hc₂], ?_⟩
    simp only [List.foldlM_cons]
    exact hperf₁.append hperf₂

end Generate

/-! ### Programs -/

/-- Code that was generated for a program is that of its statements, and then the end of the run. -/
lemma generateCode_eq_ok {p : Program} {code : List Instruction}
    (h : generateCode p.toNode = .ok code) :
    ∃ g, Generate.statements (p.statements.map Statement.toNode) {} = .ok () g ∧
      code = g.instructions ++ [{ op := .halt }] := by
  cases hc : Generate.code p.toNode {} with
  | error f g =>
    rw [generateCode, hc] at h
    cases h
  | ok code' g =>
    rw [generateCode, hc] at h
    cases h
    obtain ⟨_, g₁, h₁, hc⟩ := Generate.bind_eq_ok hc
    cases h₁
    obtain ⟨_, g₂, h₂, hc⟩ := Generate.bind_eq_ok hc
    obtain ⟨_, g₃, h₃, hc⟩ := Generate.bind_eq_ok hc
    cases h₃
    cases hc
    exact ⟨g₂, h₂, rfl⟩

lemma compile_eq_ok {path source : String} {d : Declarations} {code : List Instruction}
    (h : (compile path d source).outcome = .ok code) :
    ∃ p, parse source = .ok p ∧ generateCode p.toNode = .ok code := by
  cases hp : parse source with
  | error e =>
    simp only [compile, hp] at h
    cases h
  | ok p =>
    refine ⟨p, rfl, ?_⟩
    simp only [compile, hp, compileTree] at h
    split at h
    · cases h
    · split at h
      · cases h
      · next hg =>
        cases h
        exact hg

/-- The code of a source text does what its program does. For all meanings of the operations and
constants, all values of the variables at the start and all inputs, the run of the code comes to its
end, and has then printed the same values, read the same inputs and applied the same operations in
the same order as the run of the program. Every name has the same value then, unless it is that of a
temporary. -/
theorem compile_preserves_meaning {path source : String} {d : Declarations}
    {code : List Instruction} (h : (compile path d source).outcome = .ok code) :
    ∃ p, parse source = .ok p ∧
      ∀ (V : Type) (I : Interpretation V) (store : String → V) (input : ℕ → V),
        ∃ w w' : World V, p.exec I input { store } = some w ∧
          Machine.run I input code { store } = some w' ∧ w'.printed = w.printed ∧
          w'.consumed = w.consumed ∧ w'.applied = w.applied ∧
          ∀ name, (∀ k : ℕ, name ≠ (Operand.temporary k).name) → w'.store name = w.store name := by
  obtain ⟨p, hp, hg⟩ := compile_eq_ok h
  obtain ⟨g, hs, rfl⟩ := generateCode_eq_ok hg
  refine ⟨p, hp, fun V I store input => ?_⟩
  obtain ⟨c, hc, hperf⟩ :=
    Generate.performs_of_statements I input (not_isTemporaryName_of_parse hp) hs
  obtain ⟨w, w', hexec, hrun, hagree⟩ := hperf { store } { store } ⟨rfl, rfl, rfl, fun _ => rfl⟩
  refine ⟨w, w', hexec, ?_, hagree.printed, hagree.consumed, hagree.applied, fun name hname => ?_⟩
  · rw [hc, List.nil_append, Machine.run_append hrun]
    rfl
  · apply hagree.store
    rintro ⟨k, hk⟩
    exact hname k hk

theorem difference_preserves_meaning :
    ∃ code p,
      (compile "" [("س", .integer)] "برنامج س ; \x7b س = 9 - س ; اطبع ( س ) \x7d .").outcome =
        .ok code ∧
      parse "برنامج س ; \x7b س = 9 - س ; اطبع ( س ) \x7d ." = .ok p ∧
      ∀ (V : Type) (I : Interpretation V) (store : String → V) (input : ℕ → V),
        ∃ w w' : World V, p.exec I input { store } = some w ∧
          Machine.run I input code { store } = some w' ∧ w'.printed = w.printed := by
  have h : (compile "" [("س", .integer)]
      "برنامج س ; \x7b س = 9 - س ; اطبع ( س ) \x7d .").outcome =
      .ok [{ op := .sub, result := some (.temporary 0),
             arg1 := some (.constant (.int 9) (some .integerLiteral)),
             arg2 := some (.named "س") },
           { op := .assign, result := some (.named "س"), arg1 := some (.temporary 0) },
           { op := .print, arg1 := some (.named "س") },
           { op := .halt }] := by
    decide +kernel
  obtain ⟨p, hp, hall⟩ := compile_preserves_meaning h
  refine ⟨_, p, h, hp, fun V I store input => ?_⟩
  obtain ⟨w, w', hexec, hrun, hprinted, -⟩ := hall V I store input
  exact ⟨w, w', hexec, hrun, hprinted⟩

end Barnamaj
