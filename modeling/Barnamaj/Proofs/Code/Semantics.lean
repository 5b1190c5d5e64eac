import Barnamaj.Code.Instruction
import Barnamaj.Tree.Basic
import Mathlib.Logic.Function.Basic
import Mathlib.Tactic.Common

/-!
# What programs and instructions do

Two ways to run a program, on one kind of world. `Program.exec` follows the tree, and evaluates the
left operand of an operator before the right one. `Machine.run` follows a list of instructions, with
one store for variables and temporaries alike. What the values are, and what the operations and the
constants mean, is left open (`Interpretation`).
-/

namespace Barnamaj

variable {V : Type}

/-! ### Worlds -/

/-- What the operations and the constants mean. -/
structure Interpretation (V : Type) where
  unary : OpCode → V → V
  binary : OpCode → V → V → V
  constant : Option TokenKind → Value → V

/-- What a run can observe and change: the values of names, how many values it has read, what it
has printed, and which operations it has applied to which values, in their order. -/
structure World (V : Type) where
  store : String → V
  consumed : ℕ := 0
  printed : List V := []
  applied : List (OpCode × List V) := []

namespace World

/-- Give a name a value. -/
def assign (w : World V) (name : String) (v : V) : World V :=
  { w with store := Function.update w.store name v }

/-- Give a name the next value of the input. -/
def receive (w : World V) (input : ℕ → V) (name : String) : World V :=
  { w with store := Function.update w.store name (input w.consumed), consumed := w.consumed + 1 }

/-- Print a value. -/
def print (w : World V) (v : V) : World V :=
  { w with printed := w.printed ++ [v] }

/-- Note that an operation is applied. -/
def note (w : World V) (op : OpCode) (args : List V) : World V :=
  { w with applied := w.applied ++ [(op, args)] }

/-- The value of an operand: a constant stands for itself, and everything else for what is stored
under its name. -/
def value (I : Interpretation V) (w : World V) (o : Operand) : V :=
  if o.isConstant then I.constant o.kind o.value else w.store o.name

@[simp] lemma store_assign_self (w : World V) (name : String) (v : V) :
    (w.assign name v).store name = v := by
  simp [assign]

lemma store_assign_of_ne {x name : String} (h : x ≠ name) (w : World V) (v : V) :
    (w.assign name v).store x = w.store x := by
  simp [assign, h]

end World

/-! ### Running a tree -/

/-- The operation of an operator. -/
def TokenKind.operation? : TokenKind → Option OpCode
  | .plus => some .add
  | .minus => some .sub
  | .multiply => some .mul
  | .divide => some .div
  | .intDivide => some .idiv
  | .modulo => some .mod
  | .power => some .pow
  | .and => some .and
  | .or => some .or
  | .not => some .not
  | .eq => some .eq
  | .neq => some .neq
  | .lt => some .lt
  | .gt => some .gt
  | .lte => some .lte
  | .gte => some .gte
  | _ => none

/-- The value of an expression, if its operators have operations, and the world after it. -/
def Expression.eval (I : Interpretation V) : Expression → World V → Option (V × World V)
  | .literal t, w => some (I.constant (some t.kind) t.value, w)
  | .access t, w => some (w.store t.lexeme, w)
  | .unary op operand, w => do
    let (a, w) ← operand.eval I w
    let o ← op.kind.operation?
    return (I.unary o a, w.note o [a])
  | .binary op left right, w => do
    let (a, w) ← left.eval I w
    let (b, w) ← right.eval I w
    let o ← op.kind.operation?
    return (I.binary o a b, w.note o [a, b])

section

variable {I : Interpretation V} {w w₁ w₂ : World V} {op : Token} {o : OpCode} {left right : Expression}
  {a b : V}

lemma Expression.eval_unary (h : left.eval I w = some (a, w₁)) (ho : op.kind.operation? = some o) :
    (Expression.unary op left).eval I w = some (I.unary o a, w₁.note o [a]) := by
  simp [eval, h, ho]

lemma Expression.eval_binary (hl : left.eval I w = some (a, w₁))
    (hr : right.eval I w₁ = some (b, w₂)) (ho : op.kind.operation? = some o) :
    (Expression.binary op left right).eval I w = some (I.binary o a b, w₂.note o [a, b]) := by
  simp [eval, hl, hr, ho]

end

/-- Print the value of an item. -/
def PrintItem.exec (I : Interpretation V) (w : World V) : PrintItem → World V
  | .literal t => w.print (I.constant (some t.kind) t.value)
  | .access t => w.print (w.store t.lexeme)

/-- Run a statement; a print statement prints its items one after the other. -/
def Statement.exec (I : Interpretation V) (input : ℕ → V) (w : World V) :
    Statement → Option (World V)
  | .assignment target e => do
    let (v, w) ← e.eval I w
    return w.assign target.lexeme v
  | .print _ items => some (items.foldl (PrintItem.exec I) w)
  | .read _ target => some (w.receive input target.lexeme)

/-- Run the statements of a program in their order. -/
def Program.exec (I : Interpretation V) (input : ℕ → V) (p : Program) (w : World V) :
    Option (World V) :=
  p.statements.foldlM (Statement.exec I input) w

/-! ### Running instructions -/

/-- Whether an operation computes a value from its arguments. -/
def OpCode.computes : OpCode → Bool
  | .add | .sub | .mul | .div | .idiv | .mod | .pow | .and | .or | .not => true
  | .eq | .neq | .lt | .gt | .lte | .gte => true
  | _ => false

lemma TokenKind.computes_of_operation? {k : TokenKind} {o : OpCode} (h : k.operation? = some o) :
    o.computes = true := by
  cases k <;> cases h <;> rfl

namespace Machine

/-- Execute an instruction that does not end the run, if it has a meaning. -/
def step (I : Interpretation V) (input : ℕ → V) (i : Instruction) (w : World V) :
    Option (World V) :=
  if i.op.computes then
    match i.result, i.arg1, i.arg2 with
    | some r, some a, some b =>
      some ((w.note i.op [w.value I a, w.value I b]).assign r.name
        (I.binary i.op (w.value I a) (w.value I b)))
    | some r, some a, none =>
      some ((w.note i.op [w.value I a]).assign r.name (I.unary i.op (w.value I a)))
    | _, _, _ => none
  else
    match i.op, i.result, i.arg1, i.arg2 with
    | .assign, some r, some a, none => some (w.assign r.name (w.value I a))
    | .read, some r, none, none => some (w.receive input r.name)
    | .print, none, some a, none => some (w.print (w.value I a))
    | _, _, _, _ => none

/-- Execute instructions in their order. -/
def exec (I : Interpretation V) (input : ℕ → V) (code : List Instruction) (w : World V) :
    Option (World V) :=
  code.foldlM (fun w i => step I input i w) w

/-- Run instructions in their order up to the one that ends the run. There is no outcome if an
instruction has no meaning, or if none of them ends the run. -/
def run (I : Interpretation V) (input : ℕ → V) : List Instruction → World V → Option (World V)
  | [], _ => none
  | i :: rest, w =>
    if i.op = .halt then some w
    else (step I input i w).bind (run I input rest)

variable {I : Interpretation V} {input : ℕ → V} {w w' w'' : World V}

lemma exec_append {c c' : List Instruction} (h : exec I input c w = some w')
    (h' : exec I input c' w' = some w'') : exec I input (c ++ c') w = some w'' := by
  rw [exec, List.foldlM_append]
  exact (congrArg (· >>= _) h).trans h'

lemma exec_singleton (i : Instruction) : exec I input [i] w = step I input i w := by
  rw [exec, List.foldlM_cons]
  cases step I input i w <;> rfl

section Step

variable (I : Interpretation V) (input : ℕ → V)

lemma step_unary {o : OpCode} (ho : o.computes = true) (r a : Operand) (w : World V) :
    step I input { op := o, result := some r, arg1 := some a } w =
      some ((w.note o [w.value I a]).assign r.name (I.unary o (w.value I a))) := by
  simp [step, ho]

lemma step_binary {o : OpCode} (ho : o.computes = true) (r a b : Operand) (w : World V) :
    step I input { op := o, result := some r, arg1 := some a, arg2 := some b } w =
      some ((w.note o [w.value I a, w.value I b]).assign r.name
        (I.binary o (w.value I a) (w.value I b))) := by
  simp [step, ho]

lemma step_assign (r a : Operand) (w : World V) :
    step I input { op := .assign, result := some r, arg1 := some a } w =
      some (w.assign r.name (w.value I a)) :=
  rfl

lemma step_read (r : Operand) (w : World V) :
    step I input { op := .read, result := some r } w = some (w.receive input r.name) :=
  rfl

lemma step_print (a : Operand) (w : World V) :
    step I input { op := .print, arg1 := some a } w = some (w.print (w.value I a)) :=
  rfl

end Step

lemma step_halt {i : Instruction} (h : i.op = .halt) : step I input i w = none := by
  rw [step, h]
  rfl

/-- Instructions that can be executed do not end the run. -/
lemma run_append {c c' : List Instruction} (h : exec I input c w = some w') :
    run I input (c ++ c') w = run I input c' w' := by
  induction c generalizing w with
  | nil =>
    cases h
    rfl
  | cons i c ih =>
    rw [exec, List.foldlM_cons] at h
    cases hs : step I input i w with
    | none =>
      rw [hs] at h
      cases h
    | some w₁ =>
      rw [hs] at h
      have hne : i.op ≠ .halt := by
        intro hh
        rw [step_halt hh] at hs
        cases hs
      rw [List.cons_append, run, if_neg hne, hs]
      exact ih h

end Machine

end Barnamaj
