import Barnamaj.Proofs.Code.Composition
import Mathlib.Data.List.Perm.Basic

/-!
# How code uses temporaries

What a tree does is a list of actions in the order of evaluation (`Node.actions`): an operator is
applied after its operands, from left to right. The code of a tree has one instruction for each
action. The operations store into the temporaries one after the other, and each of these is used
once, by a later instruction (`Node.Numbered`). While code is generated, what is stored and not used
yet is pending: it is the value of an expression that is still to be used (`Fragment`).
-/

namespace Barnamaj

/-! ### Actions -/

/-- A single thing that a tree does: apply an operator to a number of operands, give a variable a
value, print an item, or read a value. -/
inductive Action where
  | compute (operator : Token) (operands : ℕ)
  | assign
  | print
  | read
deriving DecidableEq

namespace Action

/-- The operation of an action. -/
def operation? : Action → Option OpCode
  | .compute operator _ => operator.kind.operation?
  | .assign => some .assign
  | .print => some .print
  | .read => some .read

/-- The operator that an action applies, and the number of its operands. -/
def operator? : Action → Option (Token × ℕ)
  | .compute operator operands => some (operator, operands)
  | _ => none

lemma not_computes {a : Action} {op : OpCode} (ha : a.operator? = none)
    (hop : a.operation? = some op) : op.computes = false := by
  cases a with
  | compute _ _ => cases ha
  | _ => obtain rfl := Option.some.inj hop; rfl

end Action

namespace Node

mutual

/-- What a tree does, in the order of evaluation. -/
def actions : Node → List Action
  | .program _ _ body => body.actions
  | .block _ statements => actionsAll statements
  | .assignment _ _ e => e.actions ++ [.assign]
  | .print _ items _ => itemActions items
  | .read _ _ _ => [.read]
  | .binary _ operator left right => left.actions ++ right.actions ++ [.compute operator 2]
  | .unary _ operator operand => operand.actions ++ [.compute operator 1]
  | .access _ _ _ => []
  | .literal _ _ _ _ => []
  | .bare _ _ => []

/-- What several trees do, one after the other. -/
def actionsAll : List Node → List Action
  | [] => []
  | n :: ns => n.actions ++ actionsAll ns

/-- What is done to print items one after the other. -/
def itemActions : List Node → List Action
  | [] => []
  | n :: ns => n.actions ++ [.print] ++ itemActions ns

end

/-- The operators of a tree in the order of evaluation, with the numbers of their operands. -/
def operators (n : Node) : List (Token × ℕ) :=
  n.actions.filterMap Action.operator?

lemma actions_body (n : Node) : n.body.actions = n.actions := by
  cases n with
  | program _ _ _ => rw [body, actions]
  | _ => rfl

end Node

/-! ### Instructions -/

/-- A number of temporaries that follow one another. -/
def Operand.temporaries (t n : ℕ) : List Operand :=
  (List.range' t n).map fun k => .temporary (k : ℕ)

lemma Operand.temporaries_add (t m n : ℕ) :
    temporaries t (m + n) = temporaries t m ++ temporaries (t + m) n := by
  rw [temporaries, temporaries, temporaries, ← List.map_append, List.range'_append_1]

namespace Instruction

/-- The arguments of an instruction that are there. -/
def arguments (i : Instruction) : List Operand :=
  [i.arg1, i.arg2].filterMap id

/-- The temporaries among the arguments are numbered below a bound. -/
def Uses (t : ℕ) (i : Instruction) : Prop :=
  ∀ o ∈ i.arguments, o.isTemporary = true → ∃ k < t, o = .temporary (k : ℕ)

end Instruction

/-- The instructions carry out the actions one by one. Operations store into the temporaries from
a number on, nothing else does, and only temporaries that were stored into before are used. -/
inductive CarriesOut : ℕ → List Action → List Instruction → Prop where
  | nil (t : ℕ) : CarriesOut t [] []
  | compute {t : ℕ} {operator : Token} {i : Instruction} {as : List Action}
      {c : List Instruction} (hop : operator.kind.operation? = some i.op)
      (hresult : i.result = some (.temporary t)) (hargs : i.Uses t) (h : CarriesOut (t + 1) as c) :
      CarriesOut t (.compute operator i.arguments.length :: as) (i :: c)
  | other {t : ℕ} {a : Action} {i : Instruction} {as : List Action} {c : List Instruction}
      (ha : a.operator? = none) (hop : a.operation? = some i.op)
      (hresult : ∀ o ∈ i.result, o.isTemporary = false) (hargs : i.Uses t) (h : CarriesOut t as c) :
      CarriesOut t (a :: as) (i :: c)

namespace CarriesOut

variable {t : ℕ} {as bs : List Action} {c d : List Instruction}

lemma append (h : CarriesOut t as c)
    (h' : CarriesOut (t + (as.filterMap Action.operator?).length) bs d) :
    CarriesOut t (as ++ bs) (c ++ d) := by
  induction h with
  | nil t => exact h'
  | compute hop hresult hargs _ ih =>
    refine .compute hop hresult hargs (ih ?_)
    simp only [List.filterMap_cons, Action.operator?, List.length_cons] at h'
    rwa [Nat.add_assoc, Nat.add_comm 1]
  | other ha hop hresult hargs _ ih =>
    refine .other ha hop hresult hargs (ih ?_)
    rwa [List.filterMap_cons_none ha] at h'

/-- The operations of the instructions are those of the actions. -/
lemma map_op (h : CarriesOut t as c) : c.map (fun i => some i.op) = as.map Action.operation? := by
  induction h with
  | nil t => rfl
  | compute hop _ _ _ ih => rw [List.map_cons, List.map_cons, ih, Action.operation?, hop]
  | other _ hop _ _ _ ih => rw [List.map_cons, List.map_cons, ih, hop]

/-- The operations are those of the operators, each with its own temporary. -/
lemma map_computes (h : CarriesOut t as c) :
    (c.filter (·.op.computes)).map (fun i => (some i.op, i.result, i.arguments.length)) =
      (as.filterMap Action.operator?).mapIdx
        fun k x => (x.1.kind.operation?, some (.temporary (t + k : ℕ)), x.2) := by
  induction h with
  | nil t => rfl
  | @compute _ _ i _ _ hop hresult _ _ ih =>
    have hcomputes : i.op.computes = true := TokenKind.computes_of_operation? hop
    rw [List.filter_cons_of_pos (by simp [hcomputes]), List.map_cons, ih, hresult, ← hop]
    simp [Action.operator?, List.mapIdx_cons, Nat.add_assoc, Nat.add_comm 1]
  | @other _ _ i _ _ ha hop _ _ _ ih =>
    have hcomputes := Action.not_computes ha hop
    rw [List.filter_cons_of_neg (by simp [hcomputes]), ih, List.filterMap_cons_none ha]

/-- The temporaries that are stored into follow one another. -/
lemma filter_results (h : CarriesOut t as c) :
    (c.filterMap Instruction.result).filter Operand.isTemporary =
      Operand.temporaries t (as.filterMap Action.operator?).length := by
  induction h with
  | nil t => rfl
  | compute _ hresult _ _ ih =>
    rw [List.filterMap_cons_some hresult, List.filter_cons_of_pos rfl, ih]
    simp [Action.operator?, Operand.temporaries, List.range'_succ]
  | @other _ _ i _ _ ha _ hresult _ _ ih =>
    rw [List.filterMap_cons_none ha, ← ih, List.filterMap_cons]
    cases hr : i.result with
    | none => rfl
    | some o => exact List.filter_cons_of_neg (by simp [hresult o hr])

/-- Up to the instruction that stores into a temporary, it is not used. -/
lemma exists_split (h : CarriesOut t as c) {k : ℕ} (hk : t ≤ k)
    (hlt : k < t + (as.filterMap Action.operator?).length) :
    ∃ before i after, c = before ++ i :: after ∧ i.result = some (.temporary k) ∧
      ∀ x ∈ before ++ [i], .temporary k ∉ x.arguments := by
  have hunused : ∀ {t : ℕ} {i : Instruction}, i.Uses t → t ≤ k → .temporary k ∉ i.arguments := by
    intro t i hargs hk hmem
    obtain ⟨j, hj, heq⟩ := hargs _ hmem rfl
    cases heq
    omega
  induction h with
  | nil t =>
    simp at hlt
    omega
  | @compute t _ i as c hop hresult hargs _ ih =>
    rcases hk.eq_or_lt with rfl | hk'
    · exact ⟨[], i, c, rfl, hresult, by simpa using hunused hargs le_rfl⟩
    · have hlt' : k < t + 1 + (as.filterMap Action.operator?).length := by
        simp only [List.filterMap_cons, Action.operator?, List.length_cons] at hlt
        omega
      obtain ⟨before, j, after, rfl, hj, hbefore⟩ := ih hk' hlt'
      exact ⟨i :: before, j, after, rfl, hj, List.forall_mem_cons.mpr ⟨hunused hargs hk, hbefore⟩⟩
  | @other t _ i as c ha hop hresult hargs _ ih =>
    rw [List.filterMap_cons_none ha] at hlt
    obtain ⟨before, j, after, rfl, hj, hbefore⟩ := ih hk hlt
    exact ⟨i :: before, j, after, rfl, hj, List.forall_mem_cons.mpr ⟨hunused hargs hk, hbefore⟩⟩

end CarriesOut

/-! ### Fragments of code -/

/-- Code that carries out the actions with the temporaries from `t` up to `t'`. Each of these is
used once, by the code or by what is pending after it. -/
structure Fragment (t t' : ℕ) (as : List Action) (c : List Instruction) (pending : List Operand) :
    Prop where
  carriesOut : CarriesOut t as c
  counter : t' = t + (as.filterMap Action.operator?).length
  uses : ((c.flatMap Instruction.arguments ++ pending).filter Operand.isTemporary).Perm
    (Operand.temporaries t (as.filterMap Action.operator?).length)

namespace Fragment

variable {t t₁ t₂ : ℕ} {as bs : List Action} {c d : List Instruction} {o : Operand}
  {pending waiting : List Operand}

lemma nil (t : ℕ) : Fragment t t [] [] [] :=
  ⟨.nil t, rfl, .nil⟩

/-- A variable or a constant needs no code. -/
lemma leaf (t : ℕ) (ho : o.isTemporary = false) : Fragment t t [] [] [o] := by
  refine ⟨.nil t, rfl, ?_⟩
  rw [List.flatMap_nil, List.nil_append, List.filter_cons_of_neg (by simp [ho])]
  exact .nil

lemma append (h : Fragment t t₁ as c pending) (h' : Fragment t₁ t₂ bs d waiting) :
    Fragment t t₂ (as ++ bs) (c ++ d) (pending ++ waiting) := by
  have hcounter := h.counter
  subst hcounter
  refine ⟨h.carriesOut.append h'.carriesOut, ?_, ?_⟩
  · rw [h'.counter, List.filterMap_append, List.length_append, Nat.add_assoc]
  · have hsplit : ((c ++ d).flatMap Instruction.arguments ++ (pending ++ waiting)).Perm
        ((c.flatMap Instruction.arguments ++ pending) ++
          (d.flatMap Instruction.arguments ++ waiting)) := by
      rw [List.perm_iff_count]
      intro o
      simp only [List.flatMap_append, List.count_append]
      omega
    refine (hsplit.filter _).trans ?_
    rw [List.filter_append, List.filterMap_append, List.length_append, Operand.temporaries_add]
    exact h.uses.append h'.uses

variable {i : Instruction}

/-- What is pending has been stored before. -/
lemma uses_arguments (h : Fragment t t₁ as c i.arguments) : i.Uses t₁ := by
  intro o ho htemp
  have hmem : o ∈ Operand.temporaries t (as.filterMap Action.operator?).length := by
    rw [← h.uses.mem_iff, List.mem_filter]
    exact ⟨List.mem_append_right _ ho, htemp⟩
  obtain ⟨k, hk, rfl⟩ := List.mem_map.mp hmem
  rw [List.mem_range'_1] at hk
  exact ⟨k, by rw [h.counter]; exact hk.2, rfl⟩

/-- An operation uses what is pending, and its result is pending then. -/
lemma compute {operator : Token} (h : Fragment t t₁ as c i.arguments)
    (hop : operator.kind.operation? = some i.op) (hresult : i.result = some (.temporary t₁)) :
    Fragment t (t₁ + 1) (as ++ [.compute operator i.arguments.length]) (c ++ [i])
      [.temporary t₁] := by
  have huses := h.uses_arguments
  have hcounter := h.counter
  subst hcounter
  refine ⟨h.carriesOut.append (.compute hop hresult huses (.nil _)), ?_, ?_⟩
  · simp [Action.operator?, Nat.add_assoc]
  · rw [List.flatMap_append, List.flatMap_singleton, List.filter_append, List.filterMap_append,
      List.length_append, Operand.temporaries_add]
    exact h.uses.append_right _

/-- Any other instruction uses what is pending, and leaves nothing to use. -/
lemma consume {a : Action} (h : Fragment t t₁ as c i.arguments) (ha : a.operator? = none)
    (hop : a.operation? = some i.op) (hresult : ∀ o ∈ i.result, o.isTemporary = false) :
    Fragment t t₁ (as ++ [a]) (c ++ [i]) [] := by
  have huses := h.uses_arguments
  have hnone : (as ++ [a]).filterMap Action.operator? = as.filterMap Action.operator? := by
    rw [List.filterMap_append, List.filterMap_cons_none ha, List.filterMap_nil, List.append_nil]
  have hcounter := h.counter
  subst hcounter
  refine ⟨h.carriesOut.append (.other ha hop hresult huses (.nil _)), ?_, ?_⟩
  · rw [hnone]
  · rw [hnone, List.flatMap_append, List.flatMap_singleton, List.append_nil]
    exact h.uses

variable {operator : Token} {op : OpCode} {a b : Operand}

lemma unary (h : Fragment t t₁ as c [a]) (hop : operator.kind.operation? = some op) :
    Fragment t (t₁ + 1) (as ++ [.compute operator 1])
      (c ++ [{ op, result := some (.temporary t₁), arg1 := some a }]) [.temporary t₁] :=
  h.compute (i := { op, result := some (.temporary t₁), arg1 := some a }) hop rfl

lemma binary (h : Fragment t t₁ as c [a]) (h' : Fragment t₁ t₂ bs d [b])
    (hop : operator.kind.operation? = some op) :
    Fragment t (t₂ + 1) (as ++ bs ++ [.compute operator 2])
      (c ++ d ++ [{ op, result := some (.temporary t₂), arg1 := some a, arg2 := some b }])
      [.temporary t₂] :=
  (h.append h').compute
    (i := { op, result := some (.temporary t₂), arg1 := some a, arg2 := some b }) hop rfl

lemma assign (h : Fragment t t₁ as c [a]) (name : String) :
    Fragment t t₁ (as ++ [.assign])
      (c ++ [{ op := .assign, result := some (.named name), arg1 := some a }]) [] := by
  refine h.consume (i := { op := .assign, result := some (.named name), arg1 := some a }) rfl rfl ?_
  rintro o ⟨⟩
  rfl

lemma print (h : Fragment t t₁ as c [a]) :
    Fragment t t₁ (as ++ [.print]) (c ++ [{ op := .print, arg1 := some a }]) [] :=
  h.consume (i := { op := .print, arg1 := some a }) rfl rfl (by simp)

lemma read (t : ℕ) (name : String) :
    Fragment t t [.read] [{ op := .read, result := some (.named name) }] [] := by
  refine (nil t).consume (i := { op := .read, result := some (.named name) }) rfl rfl ?_
  rintro o ⟨⟩
  rfl

end Fragment

/-! ### Generated code -/

namespace Generate

variable {g g' : Generator} {o : Operand}

/-- The code of an expression carries out its actions, and leaves the value pending. -/
lemma fragment_of_expression {n : Node} (h : expression n g = .ok o g') :
    ∃ c, g'.instructions = g.instructions ++ c ∧
      Fragment g.temporaries g'.temporaries n.actions c [o] := by
  induction n using expression.induct generalizing g g' o with
  | case1 _ operator left right ihl ihr =>
    obtain ⟨a, g₁, h₁, h⟩ := bind_eq_ok h
    obtain ⟨ca, hca, hfa⟩ := ihl h₁
    obtain ⟨b, g₂, h₂, h⟩ := bind_eq_ok h
    obtain ⟨cb, hcb, hfb⟩ := ihr h₂
    obtain ⟨r, g₃, h₃, h⟩ := bind_eq_ok h
    cases h₃
    obtain ⟨op, g₄, h₄, h⟩ := bind_eq_ok h
    obtain ⟨rfl, hop⟩ := opCode_eq_ok h₄
    cases h
    exact ⟨_, by simp [hca, hcb], hfa.binary hfb hop⟩
  | case2 _ operator operand ih =>
    obtain ⟨a, g₁, h₁, h⟩ := bind_eq_ok h
    obtain ⟨c, hc, hf⟩ := ih h₁
    obtain ⟨r, g₂, h₂, h⟩ := bind_eq_ok h
    cases h₂
    obtain ⟨op, g₃, h₃, h⟩ := bind_eq_ok h
    obtain ⟨rfl, hop⟩ := opCode_eq_ok h₃
    cases h
    exact ⟨_, by simp [hc], hf.unary hop⟩
  | case3 _ name _ =>
    cases h
    exact ⟨[], by simp, .leaf _ rfl⟩
  | case4 _ kind value _ =>
    cases h
    exact ⟨[], by simp, .leaf _ rfl⟩
  | case5 n hbinary hunary haccess hliteral =>
    rw [expression] at h
    · cases h
    · exact hbinary
    · exact hunary
    · exact haccess
    · exact hliteral

/-- What a target names is no temporary. -/
lemma target_eq_ok {n : Node} (h : target n g = .ok o g') : g' = g ∧ ∃ name, o = .named name := by
  cases n with
  | access _ name _ =>
    cases h
    exact ⟨rfl, name, rfl⟩
  | program _ name _ =>
    cases h
    exact ⟨rfl, name, rfl⟩
  | _ => cases h

lemma fragment_of_printItems {items : List Node} (h : printItems items g = .ok () g') :
    ∃ c, g'.instructions = g.instructions ++ c ∧
      Fragment g.temporaries g'.temporaries (Node.itemActions items) c [] := by
  induction items generalizing g with
  | nil =>
    cases h
    exact ⟨[], by simp, .nil _⟩
  | cons item items ih =>
    obtain ⟨a, g₁, h₁, h⟩ := bind_eq_ok h
    obtain ⟨c, hc, hf⟩ := fragment_of_expression h₁
    obtain ⟨_, g₂, h₂, h⟩ := bind_eq_ok h
    cases h₂
    obtain ⟨c', hc', hf'⟩ := ih h
    exact ⟨_, by simp [hc, hc'], hf.print.append hf'⟩

mutual

/-- The code of a statement carries out its actions, and leaves nothing pending. -/
lemma fragment_of_statement {g g' : Generator} : ∀ {n : Node}, statement n g = .ok () g' →
    ∃ c, g'.instructions = g.instructions ++ c ∧
      Fragment g.temporaries g'.temporaries n.actions c []
  | .assignment _ goal e, h => by
    rw [statement] at h
    obtain ⟨a, g₁, h₁, h⟩ := bind_eq_ok h
    obtain ⟨c, hc, hf⟩ := fragment_of_expression h₁
    obtain ⟨r, g₂, h₂, h⟩ := bind_eq_ok h
    obtain ⟨rfl, name, rfl⟩ := target_eq_ok h₂
    cases h
    exact ⟨_, by simp [hc], hf.assign name⟩
  | .print _ items _, h => by
    rw [statement] at h
    exact fragment_of_printItems h
  | .read _ goal _, h => by
    rw [statement] at h
    obtain ⟨r, g₁, h₁, h⟩ := bind_eq_ok h
    obtain ⟨rfl, name, rfl⟩ := target_eq_ok h₁
    cases h
    exact ⟨_, rfl, .read _ name⟩
  | .block _ nodes, h => by
    rw [statement] at h
    exact fragment_of_statements h
  | .program _ _ _, h => by rw [statement] at h; cases h
  | .binary _ _ _ _, h => by rw [statement] at h; cases h
  | .unary _ _ _, h => by rw [statement] at h; cases h
  | .access _ _ _, h => by rw [statement] at h; cases h
  | .literal _ _ _ _, h => by rw [statement] at h; cases h
  | .bare _ _, h => by rw [statement] at h; cases h

lemma fragment_of_statements {g g' : Generator} : ∀ {ns : List Node},
    statements ns g = .ok () g' → ∃ c, g'.instructions = g.instructions ++ c ∧
      Fragment g.temporaries g'.temporaries (Node.actionsAll ns) c []
  | [], h => by
    rw [statements] at h
    cases h
    exact ⟨[], by simp, .nil _⟩
  | n :: ns, h => by
    rw [statements] at h
    obtain ⟨_, g₁, h₁, h⟩ := bind_eq_ok h
    obtain ⟨c, hc, hf⟩ := fragment_of_statement h₁
    obtain ⟨c', hc', hf'⟩ := fragment_of_statements h
    exact ⟨_, by simp [hc, hc'], hf.append hf'⟩

end

end Generate

/-- The code of a tree, and how many temporaries are drawn for it. -/
structure Node.Numbered (tree : Node) (code : List Instruction) (drawn : ℕ) : Prop where
  /-- There is one instruction for each action, in the order of evaluation, and one more at the
  end. -/
  operations : code.map (fun i => some i.op) = tree.actions.map Action.operation? ++ [some .halt]
  ends : code.getLast? = some { op := .halt }
  /-- The operators are numbered by the temporaries that their instructions store into. -/
  computed :
    (code.filter (·.op.computes)).map (fun i => (some i.op, i.result, i.arguments.length)) =
      tree.operators.mapIdx fun k x => (x.1.kind.operation?, some (.temporary k), x.2)
  drawn_eq : drawn = tree.operators.length
  /-- Each temporary is stored into once, and no other one. -/
  stored : (code.filterMap Instruction.result).filter Operand.isTemporary =
    Operand.temporaries 0 tree.operators.length
  /-- Each temporary is used once, and no other one. -/
  used : ((code.flatMap Instruction.arguments).filter Operand.isTemporary).Perm
    (Operand.temporaries 0 tree.operators.length)
  /-- A temporary is used by a later instruction than the one that stores into it. -/
  later (k : ℕ) (hk : k < tree.operators.length) : ∃ before i between j after,
    code = before ++ i :: (between ++ j :: after) ∧ i.result = some (.temporary k) ∧
      .temporary k ∈ j.arguments

/-- Code that uses a temporary once uses it after the instruction that stores into it. -/
lemma Fragment.exists_later {t : ℕ} {as : List Action} {c : List Instruction} {k : ℕ}
    (h : Fragment 0 t as c []) (hk : k < (as.filterMap Action.operator?).length) :
    ∃ before i between j after, c = before ++ i :: (between ++ j :: after) ∧
      i.result = some (.temporary k) ∧ .temporary k ∈ j.arguments := by
  obtain ⟨before, i, rest, rfl, hi, hbefore⟩ := h.carriesOut.exists_split k.zero_le (by omega)
  have hused : .temporary k ∈ ((before ++ i :: rest).flatMap Instruction.arguments ++ []).filter
      Operand.isTemporary := by
    rw [h.uses.mem_iff, Operand.temporaries]
    exact List.mem_map_of_mem (by simpa [List.mem_range'_1] using hk)
  rw [List.append_nil] at hused
  obtain ⟨j, hj, hjk⟩ := List.mem_flatMap.mp (List.mem_filter.mp hused).1
  have hrest : j ∈ rest := by
    rw [List.append_cons, List.mem_append] at hj
    exact hj.resolve_left fun hmem => hbefore j hmem hjk
  obtain ⟨between, after, rfl⟩ := List.append_of_mem hrest
  exact ⟨before, i, between, j, after, rfl, hi, hjk⟩

/-- The code of any tree has one instruction for each action of the tree, in the order of
evaluation, and ends the run. The operators are numbered in this order by the temporaries that they
store into; each of these is stored into once and used once, by a later instruction, and as many are
drawn as there are operators. -/
theorem code_uses_temporaries_once {tree : Node} {g g' : Generator} {code : List Instruction}
    (h : Generate.code tree g = .ok code g') : tree.Numbered code g'.temporaries := by
  obtain ⟨g₁, hs, rfl, rfl⟩ := Generate.code_eq_ok_iff.mp h
  obtain ⟨c, hc, hf⟩ := Generate.fragment_of_statement hs
  rw [Node.actions_body] at hf
  rw [hc, List.nil_append]
  refine {
    operations := ?_, ends := by simp, computed := ?_, drawn_eq := ?_, stored := ?_, used := ?_,
    later := fun k hk => ?_ }
  · rw [List.map_append, hf.carriesOut.map_op]
    rfl
  · rw [List.filter_append, List.filter_cons_of_neg (by decide), List.filter_nil, List.append_nil,
      hf.carriesOut.map_computes]
    simp [Node.operators]
  · exact hf.counter.trans (Nat.zero_add _)
  · rw [List.filterMap_append, List.filter_append, hf.carriesOut.filter_results]
    exact List.append_nil _
  · rw [List.flatMap_append, List.flatMap_singleton]
    exact hf.uses
  · obtain ⟨before, i, between, j, after, rfl, hi, hj⟩ := hf.exists_later hk
    exact ⟨before, i, between, j, after ++ [{ op := .halt }], by simp, hi, hj⟩

theorem operators_numbered_across_blocks :
    ∃ tree code g', Generate.code tree {} = .ok code g' ∧
      Instruction.listing code =
        "\t0: SUB T_0 ص\n\t1: ADD T_1 T_0 1\n\t2: ASSIGN س T_1\n\t3: MUL T_2 س س\n" ++
          "\t4: PRINT T_2\n\t5: HALT\n" ∧
      g'.temporaries = 3 ∧
      ((code.flatMap Instruction.arguments).filter Operand.isTemporary).Perm
        [.temporary 0, .temporary 1, .temporary 2] := by
  let tree : Node := .block ⟨1, 1⟩ [
    .block ⟨1, 2⟩ [.assignment ⟨1, 3⟩ (.access ⟨1, 3⟩ "س" none)
      (.binary ⟨1, 7⟩ ⟨.plus, "+", .absent, ⟨1, 7⟩⟩
        (.unary ⟨1, 5⟩ ⟨.minus, "-", .absent, ⟨1, 5⟩⟩ (.access ⟨1, 6⟩ "ص" none))
        (.literal ⟨1, 8⟩ .integerLiteral (.int 1) none))],
    .print ⟨2, 1⟩ [.binary ⟨2, 4⟩ ⟨.multiply, "*", .absent, ⟨2, 4⟩⟩
      (.access ⟨2, 3⟩ "س" none) (.access ⟨2, 5⟩ "س" none)] none]
  have h : Generate.code tree {} = .ok _ _ := rfl
  exact ⟨tree, _, _, h, by decide +kernel, rfl, (code_uses_temporaries_once h).used⟩

end Barnamaj
