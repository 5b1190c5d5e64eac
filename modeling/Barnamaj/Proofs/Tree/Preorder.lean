import Barnamaj.Proofs.Code.Listing
import Barnamaj.Tree.Outline
import Mathlib.Data.List.Forall2

/-!
# Outlines and the order of nodes

The outline of a tree has one line for each of its nodes, in the order in which a node comes before
those below it (`Node.preorder`). Nothing closes a node: what is below it shows from the indentation
alone. Still the lines tell the tree up to what the headings of the nodes do not say
(`Node.SameHeadings`), since the first line that is not indented more than a node is not below it.
-/

namespace Barnamaj

namespace Node

/-! ### The order of nodes -/

/-- The nodes right below a node, from left to right. -/
def children : Node → List Node
  | .program _ _ body => [body]
  | .block _ statements => statements
  | .assignment _ target e => [target, e]
  | .print _ items _ => items
  | .read _ target _ => [target]
  | .binary _ _ left right => [left, right]
  | .unary _ _ operand => [operand]
  | .access _ _ _ => []
  | .literal _ _ _ _ => []
  | .bare _ _ => []

lemma sizeOf_lt_of_mem_children {n c : Node} (h : c ∈ n.children) : sizeOf c < sizeOf n := by
  have hpair : ∀ {a b : Node}, c ∈ [a, b] → sizeOf c ≤ sizeOf a + sizeOf b := by
    intro a b h
    rcases List.mem_pair.mp h with rfl | rfl <;> omega
  cases n with
  | program p name body =>
    obtain rfl := List.mem_singleton.mp h
    simp only [program.sizeOf_spec]
    omega
  | block p statements =>
    have hlt : sizeOf c < sizeOf statements := List.sizeOf_lt_of_mem h
    simp only [block.sizeOf_spec]
    omega
  | assignment p target e =>
    have hle := hpair h
    simp only [assignment.sizeOf_spec]
    omega
  | print p items token =>
    have hlt : sizeOf c < sizeOf items := List.sizeOf_lt_of_mem h
    simp only [print.sizeOf_spec]
    omega
  | read p target token =>
    obtain rfl := List.mem_singleton.mp h
    simp only [read.sizeOf_spec]
    omega
  | binary p operator left right =>
    have hle := hpair h
    simp only [binary.sizeOf_spec]
    omega
  | unary p operator operand =>
    obtain rfl := List.mem_singleton.mp h
    simp only [unary.sizeOf_spec]
    omega
  | access _ _ _ => cases h
  | literal _ _ _ _ => cases h
  | bare _ _ => cases h

/-- The nodes of a tree with their depths. A node comes before those below it, and these from left
to right. -/
def preorder (depth : ℕ) (n : Node) : List (ℕ × Node) :=
  (depth, n) :: n.children.attach.flatMap fun c => c.1.preorder (depth + 1)
termination_by sizeOf n
decreasing_by exact sizeOf_lt_of_mem_children c.2

lemma preorder_eq (depth : ℕ) (n : Node) :
    n.preorder depth = (depth, n) :: n.children.flatMap (preorder (depth + 1)) := by
  rw [preorder, List.flatMap_subtype (g := preorder (depth + 1)) (by simp), List.unattach_attach]

/-! ### Headings -/

/-- The first letter of the heading of a node. -/
def initial : Node → Char
  | .program _ _ _ => 'P'
  | .block _ _ => 'S'
  | .assignment _ _ _ => 'A'
  | .print _ _ _ => 'P'
  | .read _ _ _ => 'R'
  | .binary _ _ _ _ => 'B'
  | .unary _ _ _ => 'U'
  | .access _ _ _ => 'V'
  | .literal _ _ _ _ => 'L'
  | .bare _ .any => 'A'
  | .bare _ .expression => 'E'
  | .bare _ .statement => 'S'

/-- Only the first letter of a heading is looked at, whatever the node carries. -/
lemma head?_heading (n : Node) : n.heading.toList.head? = some n.initial := by
  have happend : ∀ {a b : String} {c : Char}, a.toList.head? = some c →
      (a ++ b).toList.head? = some c := by
    intro a b c h
    rw [String.toList_append, List.head?_append, h]
    rfl
  cases n with
  | program _ name _ => exact happend (a := "Program: ") rfl
  | block _ _ => exact (rfl : "StatementList".toList.head? = _)
  | assignment _ _ _ => exact (rfl : "Assignment".toList.head? = _)
  | print _ _ _ => exact (rfl : "Print".toList.head? = _)
  | read _ _ _ => exact (rfl : "Read".toList.head? = _)
  | binary _ op _ _ => exact happend (happend (a := "BinaryOp(") rfl)
  | unary _ op _ => exact happend (happend (a := "UnaryOp(") rfl)
  | access _ name _ => exact happend (happend (a := "VariableAccess(") rfl)
  | literal _ kind value _ =>
    exact happend (happend (happend (happend (a := "Literal(") rfl)))
  | bare _ family =>
    cases family with
    | any => exact (rfl : "ASTNode".toList.head? = _)
    | expression => exact (rfl : "Expression".toList.head? = _)
    | statement => exact (rfl : "Statement".toList.head? = _)

lemma head?_heading_ne_space (n : Node) : n.heading.toList.head? ≠ some ' ' := by
  rw [head?_heading]
  cases n with
  | bare _ family => cases family <;> simp [initial]
  | _ => simp [initial]

/-- The headings in a tree stand on one line each. -/
def OnLines (n : Node) : Prop :=
  ∀ depth, ∀ x ∈ n.preorder depth, '\n' ∉ x.2.heading.toList

lemma OnLines.of_children {n : Node} (hn : '\n' ∉ n.heading.toList)
    (hc : ∀ c ∈ n.children, c.OnLines) : n.OnLines := by
  intro depth
  rw [preorder_eq, List.forall_mem_cons]
  refine ⟨hn, fun x hx => ?_⟩
  obtain ⟨c, hmem, hx⟩ := List.mem_flatMap.mp hx
  exact hc c hmem _ x hx

/-! ### The lines of an outline -/

lemma outlineAll_eq_flatMap (depth : ℤ) (ns : List Node) :
    outlineAll depth ns = ns.flatMap (outline depth) := by
  induction ns with
  | nil => rfl
  | cons n ns ih => rw [outlineAll, List.flatMap_cons, ih]

lemma outline_eq_cons (depth : ℤ) (n : Node) :
    n.outline depth = ⟨depth, n.heading⟩ :: n.children.flatMap (outline (depth + 1)) := by
  cases n <;> simp [outline, outlineAll_eq_flatMap, children]

/-- An outline lists the nodes in their order. -/
lemma outline_eq_map (depth : ℕ) (n : Node) :
    n.outline depth = (n.preorder depth).map fun x => ⟨x.1, x.2.heading⟩ := by
  rw [outline_eq_cons, preorder_eq, List.map_cons, List.map_flatMap]
  congr 1
  exact List.flatMap_congr fun c hc => outline_eq_map (depth + 1) c
termination_by sizeOf n
decreasing_by exact sizeOf_lt_of_mem_children hc

/-- The characters of a line: two spaces for each level, the heading, and the end of the line. -/
def lineChars (x : ℕ × String) : List Char :=
  List.replicate (2 * x.1) ' ' ++ x.2.toList ++ ['\n']

/-- The depths and the headings of several trees, one after the other. -/
def entries (depth : ℕ) (ns : List Node) : List (ℕ × String) :=
  (ns.flatMap (preorder depth)).map fun x => (x.1, x.2.heading)

lemma entries_nil (depth : ℕ) : entries depth [] = [] :=
  rfl

lemma entries_cons (depth : ℕ) (n : Node) (ns : List Node) : entries depth (n :: ns) =
    (depth, n.heading) :: (entries (depth + 1) n.children ++ entries depth ns) := by
  rw [entries, List.flatMap_cons, preorder_eq]
  simp [entries]

/-- A dumped tree has one line for each node. -/
lemma toList_dump (depth : ℕ) (n : Node) :
    (n.dump depth).toList = (entries depth [n]).flatMap lineChars := by
  have hrender : ∀ x : ℕ × Node,
      (OutlineLine.render ⟨x.1, x.2.heading⟩).toList = lineChars (x.1, x.2.heading) := by
    intro x
    simp [OutlineLine.render, lineChars]
  rw [dump, outline_eq_map, entries, List.flatMap_singleton, String.toList_join]
  simp [List.flatMap, hrender, Function.comp_def]

/-! ### Reading the lines -/

/-- Lines that can be told apart: the heading stands on one line and does not start with a space. -/
def Clear (x : ℕ × String) : Prop :=
  '\n' ∉ x.2.toList ∧ x.2.toList.head? ≠ some ' '

lemma replicate_append_inj {k k' : ℕ} {w w' : List Char} (hw : w.head? ≠ some ' ')
    (hw' : w'.head? ≠ some ' ')
    (h : List.replicate k ' ' ++ w = List.replicate k' ' ' ++ w') : k = k' ∧ w = w' := by
  induction k generalizing k' with
  | zero =>
    cases k' with
    | zero => exact ⟨rfl, h⟩
    | succ k' =>
      rw [List.replicate_zero, List.nil_append, List.replicate_succ, List.cons_append] at h
      exact absurd (congrArg List.head? h) hw
  | succ k ih =>
    cases k' with
    | zero =>
      rw [List.replicate_zero, List.nil_append, List.replicate_succ, List.cons_append] at h
      exact absurd (congrArg List.head? h.symm) hw'
    | succ k' =>
      rw [List.replicate_succ, List.replicate_succ, List.cons_append, List.cons_append] at h
      obtain ⟨rfl, rfl⟩ := ih (List.cons.inj h).2
      exact ⟨rfl, rfl⟩

/-- A clear line is read back from the front of a text. -/
lemma Clear.lineChars_append_inj {x y : ℕ × String} {rest rest' : List Char} (hx : Clear x)
    (hy : Clear y) (h : lineChars x ++ rest = lineChars y ++ rest') : x = y ∧ rest = rest' := by
  have hnewline : ∀ {x : ℕ × String}, Clear x →
      '\n' ∉ List.replicate (2 * x.1) ' ' ++ x.2.toList := by
    intro x hx
    rw [List.mem_append, not_or]
    exact ⟨fun hmem => absurd (List.eq_of_mem_replicate hmem) (by decide), hx.1⟩
  simp only [lineChars, List.append_assoc _ ['\n'], List.singleton_append] at h
  obtain ⟨hline, hrest⟩ := Written.append_cons_inj_of_notMem (hnewline hx) (hnewline hy) h
  obtain ⟨hdepth, htext⟩ := replicate_append_inj hx.2 hy.2 hline
  exact ⟨Prod.ext (by omega) (String.toList_inj.mp htext), hrest⟩

/-- Clear lines are read back from their text. -/
lemma lines_injective {xs ys : List (ℕ × String)} (hxs : ∀ x ∈ xs, Clear x)
    (hys : ∀ y ∈ ys, Clear y) (h : xs.flatMap lineChars = ys.flatMap lineChars) : xs = ys := by
  have hne : ∀ x rest, lineChars x ++ rest ≠ [] := by simp [lineChars]
  induction xs generalizing ys with
  | nil =>
    cases ys with
    | nil => rfl
    | cons y ys => exact absurd h.symm (hne y _)
  | cons x xs ih =>
    cases ys with
    | nil => exact absurd h (hne x _)
    | cons y ys =>
      rw [List.forall_mem_cons] at hxs hys
      obtain ⟨rfl, hrest⟩ := hxs.1.lineChars_append_inj hys.1 h
      rw [ih hxs.2 hys.2 hrest]

/-! ### The tree of the lines -/

/-- Trees of the same form whose nodes have the same headings. -/
inductive SameHeadings : Node → Node → Prop where
  | mk {n n' : Node} (h : n.heading = n'.heading)
      (hc : List.Forall₂ SameHeadings n.children n'.children) : SameHeadings n n'

namespace SameHeadings

variable {n n' : Node}

lemma heading_eq (h : n.SameHeadings n') : n.heading = n'.heading := by
  cases h with
  | mk h _ => exact h

lemma children (h : n.SameHeadings n') :
    List.Forall₂ SameHeadings n.children n'.children := by
  cases h with
  | mk _ hc => exact hc

lemma initial_eq (h : n.SameHeadings n') : n.initial = n'.initial := by
  have hhead := congrArg (·.toList.head?) h.heading_eq
  simp only [head?_heading] at hhead
  exact Option.some.inj hhead

end SameHeadings

/-- The next line is at a lower level, or there is none. -/
def Below (depth : ℕ) (rest : List (ℕ × String)) : Prop :=
  ∀ x ∈ rest.head?, x.1 < depth

lemma below_entries_append {depth : ℕ} {rest : List (ℕ × String)} (hr : Below depth rest)
    (ns : List Node) : Below (depth + 1) (entries depth ns ++ rest) := by
  intro x hx
  cases ns with
  | nil => exact Nat.lt_succ_of_lt (hr x hx)
  | cons n ns =>
    rw [entries_cons, List.cons_append, List.head?_cons, Option.mem_some_iff] at hx
    subst hx
    exact Nat.lt_succ_self depth

/-- The indentation tells the trees: what is below a node ends before the next line that is not
indented more than the node. -/
lemma entries_append_inj {depth : ℕ} {ns ns' : List Node} {rest rest' : List (ℕ × String)}
    (hr : Below depth rest) (hr' : Below depth rest')
    (h : entries depth ns ++ rest = entries depth ns' ++ rest') :
    List.Forall₂ SameHeadings ns ns' ∧ rest = rest' := by
  match ns, ns' with
  | [], [] => exact ⟨.nil, h⟩
  | [], n' :: ns' =>
    rw [entries_nil, List.nil_append, entries_cons] at h
    subst h
    exact absurd (hr _ rfl) (Nat.lt_irrefl depth)
  | n :: ns, [] =>
    rw [entries_nil, List.nil_append, entries_cons] at h
    subst h
    exact absurd (hr' _ rfl) (Nat.lt_irrefl depth)
  | n :: ns, n' :: ns' =>
    rw [entries_cons, entries_cons, List.cons_append, List.cons_append, List.append_assoc,
      List.append_assoc, List.cons.injEq, Prod.mk.injEq] at h
    obtain ⟨⟨-, hheading⟩, h⟩ := h
    obtain ⟨hchildren, h⟩ := entries_append_inj (below_entries_append hr ns)
      (below_entries_append hr' ns') h
    obtain ⟨hrest, rfl⟩ := entries_append_inj hr hr' h
    exact ⟨.cons ⟨hheading, hchildren⟩ hrest, rfl⟩
termination_by (entries depth ns).length
decreasing_by
  · simp only [entries_cons, List.length_cons, List.length_append]
    omega
  · simp only [entries_cons, List.length_cons, List.length_append]
    omega

lemma OnLines.clear {n : Node} (h : n.OnLines) (depth : ℕ) :
    ∀ x ∈ entries depth [n], Clear x := by
  rw [entries, List.flatMap_singleton, List.forall_mem_map]
  exact fun x hx => ⟨h depth x hx, x.2.head?_heading_ne_space⟩

/-- A dumped tree tells the tree up to what the headings do not say. -/
lemma OnLines.sameHeadings_of_dump_eq {n n' : Node} (hn : n.OnLines) (hn' : n'.OnLines)
    (depth : ℕ) (h : n.dump depth = n'.dump depth) : n.SameHeadings n' := by
  have hchars := congrArg String.toList h
  rw [toList_dump, toList_dump] at hchars
  have hentries := lines_injective (hn.clear depth) (hn'.clear depth) hchars
  have hnone : Below depth [] := nofun
  obtain ⟨hsame, -⟩ := entries_append_inj hnone hnone (congrArg (· ++ []) hentries)
  exact (List.forall₂_cons.mp hsame).1

end Node

end Barnamaj
