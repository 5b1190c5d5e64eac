import Barnamaj.Proofs.Code.Numbering
import Mathlib.Data.List.Nodup

/-!
# Generators that are used again

A generator can be used in any order and again and again: temporaries and labels are drawn from it,
instructions are appended, and the code of trees is generated, which may stop halfway. A `Session`
remembers what was drawn since code was last generated. Whatever a step does, it never leaves a
temporary in the code that has not been drawn (`Generate.Draws`), not even when it stops the
generator, so that a temporary that is drawn next is a new one.
-/

namespace Barnamaj

/-! ### Calls -/

/-- The generator after a step, also after one that stops it. -/
def Generate.leftBy {α : Type} (m : Generate α) (g : Generator) : Generator :=
  match m g with
  | .ok _ h => h
  | .error _ h => h

namespace Generator

/-- What is done with a generator from outside: draw a temporary or a label, append an instruction
or a label, or generate the code of a tree. -/
inductive Call where
  | newTemporary
  | newLabel
  | emit (i : Instruction)
  | emitLabel (name : String)
  | code (tree : Node)

/-- A generator in use, with the temporaries and the labels that were drawn from outside since code
was last generated. -/
structure Session where
  generator : Generator := {}
  temporaries : List Operand := []
  labels : List String := []

namespace Session

variable (s : Session)

/-- The session after a call, also after one that stops the generator. -/
def after : Call → Session
  | .newTemporary =>
    match Generate.newTemporary s.generator with
    | .ok o g => { s with generator := g, temporaries := s.temporaries ++ [o] }
    | .error _ g => { s with generator := g }
  | .newLabel =>
    match Generate.newLabel s.generator with
    | .ok l g => { s with generator := g, labels := s.labels ++ [l] }
    | .error _ g => { s with generator := g }
  | .emit i => { s with generator := (Generate.emit i).leftBy s.generator }
  | .emitLabel name => { s with generator := (Generate.emitLabel name).leftBy s.generator }
  | .code tree => { generator := (Generate.code tree).leftBy s.generator }

/-- The session after some calls, one after the other. -/
def afterAll (s : Session) (calls : List Call) : Session :=
  calls.foldl after s

/-- A call is allowed unless it appends an instruction with a temporary that was not drawn since
code was last generated. -/
def Allows : Call → Prop
  | .emit i => ∀ o ∈ i.operands, o.isTemporary = true → o ∈ s.temporaries
  | _ => True

/-- All calls are allowed, each after those in front of it. -/
def AllowsAll : Session → List Call → Prop
  | _, [] => True
  | s, call :: calls => s.Allows call ∧ (s.after call).AllowsAll calls

end Session

end Generator

/-! ### Drawn temporaries -/

/-- The operand is no temporary, or one of the first `n`. -/
def Operand.Drawn (n : ℕ) (o : Operand) : Prop :=
  o.isTemporary = true → ∃ k < n, o = .temporary (k : ℕ)

lemma Operand.Drawn.mono {m n : ℕ} {o : Operand} (h : o.Drawn m) (hmn : m ≤ n) : o.Drawn n := by
  intro htemp
  obtain ⟨k, hk, rfl⟩ := h htemp
  exact ⟨k, hk.trans_le hmn, rfl⟩

/-- A temporary that has been drawn has another name than the next one. -/
lemma Operand.Drawn.name_ne {n : ℕ} {o : Operand} (h : o.Drawn n) (ho : o.isTemporary = true) :
    o.name ≠ (Operand.temporary n).name := by
  obtain ⟨k, hk, rfl⟩ := h ho
  intro hname
  exact hk.ne (temporary_name_injective hname)

lemma Operand.Drawn.of_eq_false {n : ℕ} {o : Operand} (h : o.isTemporary = false) : o.Drawn n := by
  intro htemp
  rw [h] at htemp
  cases htemp

/-- All temporaries in the code have been drawn. -/
def Generator.Bounded (g : Generator) : Prop :=
  ∀ i ∈ g.instructions, ∀ o ∈ i.operands, o.Drawn g.temporaries

namespace Generate

variable {α β : Type} {n : ℕ} {P : ℕ → α → Prop} {Q : ℕ → β → Prop}

/-- What has become of a step: no temporary was taken back, all those in the code have been drawn,
also if the step has stopped the generator, and the answer meets a condition on what was drawn. -/
def Drawing (n : ℕ) (P : ℕ → α → Prop) :
    EStateM.Result GenerationFault Generator α → Prop
  | .ok a h => n ≤ h.temporaries ∧ h.Bounded ∧ P h.temporaries a
  | .error _ h => h.Bounded

/-- After `n` temporaries or more have been drawn, the step puts none into the code that has not
been drawn, whatever becomes of it. -/
def Draws (n : ℕ) (m : Generate α) (P : ℕ → α → Prop) : Prop :=
  ∀ g : Generator, n ≤ g.temporaries → g.Bounded → Drawing n P (m g)

lemma draws_pure {a : α} (h : ∀ k, n ≤ k → P k a) : Draws n (pure a) P := by
  intro g hn hg
  exact ⟨hn, hg, h _ hn⟩

lemma draws_throw (f : GenerationFault) : Draws n (throw f : Generate α) P := by
  intro g _ hg
  exact hg

lemma Draws.bind {m : Generate α} {f : α → Generate β} (hm : Draws n m P)
    (hf : ∀ k a, n ≤ k → P k a → Draws k (f a) Q) : Draws n (m >>= f) Q := by
  intro g hn hg
  have h := hm g hn hg
  simp only [Bind.bind, EStateM.bind]
  cases hr : m g with
  | error e g₁ =>
    rw [hr] at h
    exact h
  | ok a g₁ =>
    rw [hr] at h
    obtain ⟨hn₁, hg₁, ha⟩ := h
    have h' := hf _ a hn₁ ha g₁ le_rfl hg₁
    simp only
    cases hr' : f a g₁ with
    | error e g₂ =>
      rw [hr'] at h'
      exact h'
    | ok b g₂ =>
      rw [hr'] at h'
      exact ⟨hn₁.trans h'.1, h'.2⟩

lemma draws_newTemporary : Draws n newTemporary fun k o => o.Drawn k := by
  intro g hn hg
  refine ⟨Nat.le_succ_of_le hn, ?_, ?_⟩
  · intro i hi o ho
    exact (hg i hi o ho).mono (Nat.le_succ _)
  · intro _
    exact ⟨g.temporaries, Nat.lt_succ_self _, rfl⟩

/-- Appending an instruction is safe if its temporaries have been drawn. -/
lemma draws_emit {i : Instruction} (hi : ∀ o ∈ i.operands, o.Drawn n) :
    Draws n (emit i) fun _ _ => True := by
  intro g hn hg
  refine ⟨hn, ?_, trivial⟩
  intro j hj o ho
  rcases List.mem_append.mp hj with hj | hj
  · exact hg j hj o ho
  · rw [List.mem_singleton.mp hj] at ho
    exact (hi o ho).mono hn

lemma draws_opCode (operator : Token) : Draws n (opCode operator) fun _ _ => True := by
  rw [opCode]
  split
  · exact draws_pure fun _ _ => trivial
  · exact draws_throw _

/-! ### Trees -/

/-- The value of an expression is in a temporary that has been drawn, if it is in one. The temporary
of an operator is drawn before the operation is looked up, so that an operator without one stops the
generator with a temporary too many, and never with one too few. -/
lemma draws_expression : ∀ (n : ℕ) (e : Node), Draws n (expression e) fun k o => o.Drawn k
  | n, .binary _ operator left right => by
    rw [expression]
    refine (draws_expression n left).bind fun k a _ ha => ?_
    refine (draws_expression k right).bind fun l b hl hb => ?_
    refine draws_newTemporary.bind fun j r hj hr => ?_
    refine (draws_opCode operator).bind fun i op hi _ => ?_
    refine (draws_emit ?_).bind fun _ _ h _ =>
      draws_pure fun _ h' => hr.mono (hi.trans (h.trans h'))
    have ha' := ha.mono (hl.trans (hj.trans hi))
    have hb' := hb.mono (hj.trans hi)
    simp [Instruction.operands, hr.mono hi, ha', hb']
  | n, .unary _ operator operand => by
    rw [expression]
    refine (draws_expression n operand).bind fun k a _ ha => ?_
    refine draws_newTemporary.bind fun j r hj hr => ?_
    refine (draws_opCode operator).bind fun i op hi _ => ?_
    refine (draws_emit ?_).bind fun _ _ h _ =>
      draws_pure fun _ h' => hr.mono (hi.trans (h.trans h'))
    simp [Instruction.operands, hr.mono hi, ha.mono (hj.trans hi)]
  | _, .access _ _ _ => draws_pure fun _ _ => .of_eq_false rfl
  | _, .literal _ _ _ _ => draws_pure fun _ _ => .of_eq_false rfl
  | _, .program _ _ _ => draws_throw _
  | _, .block _ _ => draws_throw _
  | _, .assignment _ _ _ => draws_throw _
  | _, .print _ _ _ => draws_throw _
  | _, .read _ _ _ => draws_throw _
  | _, .bare _ _ => draws_throw _

lemma draws_target (e : Node) : Draws n (target e) fun k o => o.Drawn k := by
  cases e with
  | access _ _ _ => exact draws_pure fun _ _ => .of_eq_false rfl
  | program _ _ _ => exact draws_pure fun _ _ => .of_eq_false rfl
  | _ => exact draws_throw _

lemma draws_printItems (n : ℕ) (items : List Node) :
    Draws n (printItems items) fun _ _ => True := by
  induction items generalizing n with
  | nil => exact draws_pure fun _ _ => trivial
  | cons item items ih =>
    refine (draws_expression n item).bind fun k a _ ha => ?_
    refine (draws_emit ?_).bind fun l _ _ _ => ih l
    simpa [Instruction.operands] using ha

mutual

lemma draws_statement : ∀ (n : ℕ) (s : Node), Draws n (statement s) fun _ _ => True
  | n, .assignment _ goal e => by
    rw [statement]
    refine (draws_expression n e).bind fun k a _ ha => ?_
    refine (draws_target goal).bind fun l r hl hr => ?_
    refine (draws_emit ?_).bind fun _ _ _ _ => draws_pure fun _ _ => trivial
    simp [Instruction.operands, hr, ha.mono hl]
  | n, .print _ items _ => by
    rw [statement]
    exact draws_printItems n items
  | n, .read _ goal _ => by
    rw [statement]
    refine (draws_target goal).bind fun k r _ hr => ?_
    refine (draws_emit ?_).bind fun _ _ _ _ => draws_pure fun _ _ => trivial
    simpa [Instruction.operands] using hr
  | n, .block _ nodes => by
    rw [statement]
    exact draws_statements n nodes
  | _, .program _ _ _ => by rw [statement]; exact draws_throw _
  | _, .binary _ _ _ _ => by rw [statement]; exact draws_throw _
  | _, .unary _ _ _ => by rw [statement]; exact draws_throw _
  | _, .access _ _ _ => by rw [statement]; exact draws_throw _
  | _, .literal _ _ _ _ => by rw [statement]; exact draws_throw _
  | _, .bare _ _ => by rw [statement]; exact draws_throw _

lemma draws_statements : ∀ (n : ℕ) (ss : List Node), Draws n (statements ss) fun _ _ => True
  | _, [] => by
    rw [statements]
    exact draws_pure fun _ _ => trivial
  | n, s :: ss => by
    rw [statements]
    exact (draws_statement n s).bind fun k _ _ _ => draws_statements k ss

end

/-- Generating the code of a tree leaves only drawn temporaries in it, also where it stops. -/
lemma bounded_leftBy_code (tree : Node) (g : Generator) : ((code tree).leftBy g).Bounded := by
  have h := draws_statement 0 tree.body {} le_rfl (by simp [Generator.Bounded])
  rw [leftBy, code_eq]
  cases hr : statement tree.body {} with
  | error f k =>
    rw [hr] at h
    exact h
  | ok _ k =>
    rw [hr] at h
    have hhalt := draws_emit (i := { op := .halt }) (by simp [Instruction.operands]) k le_rfl h.2.1
    exact hhalt.2.1

end Generate

/-! ### Sessions -/

namespace Generator.Session

open Generate

variable {s : Session}

/-- The labels that follow one another from a number on. -/
def labelsFrom (t n : ℕ) : List String :=
  (List.range' t n).map fun k => "L" ++ toString k

/-- All temporaries in the code have been drawn, and the temporaries and labels that were drawn from
outside follow one another up to the next ones. -/
structure Sound (s : Session) : Prop where
  bounded : s.generator.Bounded
  temporaries : ∃ t n, s.temporaries = Operand.temporaries t n ∧ s.generator.temporaries = t + n
  labels : ∃ t n, s.labels = labelsFrom t n ∧ s.generator.labels = t + n

lemma sound_initial : Sound {} :=
  ⟨by simp [Bounded], ⟨0, 0, rfl, rfl⟩, ⟨0, 0, rfl, rfl⟩⟩

/-- What was drawn from outside is a temporary with a number below the counter. -/
lemma Sound.exists_eq (h : s.Sound) {o : Operand} (ho : o ∈ s.temporaries) :
    ∃ k < s.generator.temporaries, o = .temporary (k : ℕ) := by
  obtain ⟨t, n, htemps, hcount⟩ := h.temporaries
  rw [htemps, Operand.temporaries, List.mem_map] at ho
  obtain ⟨k, hk, rfl⟩ := ho
  rw [List.mem_range'_1, ← hcount] at hk
  exact ⟨k, hk.2, rfl⟩

/-- A call that is allowed keeps up the order of what is drawn. -/
lemma Sound.after (h : s.Sound) {call : Call} (hallow : s.Allows call) : (s.after call).Sound := by
  obtain ⟨hbounded, htemps, hlabels⟩ := h
  cases call with
  | newTemporary =>
    obtain ⟨t, n, heq, hcount⟩ := htemps
    refine ⟨(draws_newTemporary _ le_rfl hbounded).2.1, ⟨t, n + 1, ?_, ?_⟩, hlabels⟩
    · rw [Operand.temporaries_add, ← heq, ← hcount]
      rfl
    · rw [← Nat.add_assoc, ← hcount]
      rfl
  | newLabel =>
    obtain ⟨t, n, heq, hcount⟩ := hlabels
    refine ⟨hbounded, htemps, ⟨t, n + 1, ?_, ?_⟩⟩
    · rw [labelsFrom, List.range'_concat, List.map_append, ← labelsFrom, ← heq, Nat.one_mul,
        ← hcount]
      rfl
    · rw [← Nat.add_assoc, ← hcount]
      rfl
  | emit i =>
    have hi : ∀ o ∈ i.operands, o.Drawn s.generator.temporaries := by
      intro o ho htemp
      exact Sound.exists_eq ⟨hbounded, htemps, hlabels⟩ (hallow o ho htemp)
    exact ⟨(draws_emit hi _ le_rfl hbounded).2.1, htemps, hlabels⟩
  | emitLabel name =>
    have hname : ∀ o ∈ ({ op := .label, result := some (.named name) } : Instruction).operands,
        o.Drawn s.generator.temporaries := by
      simpa [Instruction.operands] using Operand.Drawn.of_eq_false rfl
    exact ⟨(draws_emit hname _ le_rfl hbounded).2.1, htemps, hlabels⟩
  | code tree =>
    exact ⟨bounded_leftBy_code tree s.generator, ⟨_, 0, rfl, rfl⟩, ⟨_, 0, rfl, rfl⟩⟩

lemma Sound.afterAll (h : s.Sound) {calls : List Call} (hallow : s.AllowsAll calls) :
    (s.afterAll calls).Sound := by
  induction calls generalizing s with
  | nil => exact h
  | cons call calls ih => exact ih (h.after hallow.1) hallow.2

lemma label_injective : Function.Injective fun k : ℕ => "L" ++ toString k := by
  intro j k h
  apply toString_natCast_injective
  have hlist := congrArg String.toList h
  simp only [String.toList_append, List.append_cancel_left_eq] at hlist
  exact String.toList_injective hlist

/-- The names of what was drawn from outside are pairwise different. -/
lemma Sound.nodup (h : s.Sound) : (s.temporaries.map Operand.name).Nodup ∧ s.labels.Nodup := by
  obtain ⟨-, ⟨t, n, htemps, -⟩, ⟨u, m, hlabels, -⟩⟩ := h
  constructor
  · rw [htemps, Operand.temporaries, List.map_map]
    apply List.Nodup.map
    · intro j k hjk
      exact temporary_name_injective hjk
    · exact List.nodup_range' ..
  · rw [hlabels, labelsFrom]
    exact List.Nodup.map label_injective (List.nodup_range' ..)

/-- Unless code is generated, calls only append instructions. -/
lemma exists_instructions_afterAll (s : Session) {calls : List Call}
    (h : ∀ tree, .code tree ∉ calls) :
    ∃ c, (s.afterAll calls).generator.instructions = s.generator.instructions ++ c := by
  induction calls generalizing s with
  | nil => exact ⟨[], (List.append_nil _).symm⟩
  | cons call calls ih =>
    have hcall : ∃ c, (s.after call).generator.instructions = s.generator.instructions ++ c := by
      cases call with
      | newTemporary => exact ⟨[], (List.append_nil _).symm⟩
      | newLabel => exact ⟨[], (List.append_nil _).symm⟩
      | emit i => exact ⟨[i], rfl⟩
      | emitLabel name => exact ⟨[_], rfl⟩
      | code tree => exact absurd List.mem_cons_self (h tree)
    obtain ⟨c, hc⟩ := hcall
    obtain ⟨c', hc'⟩ := ih (s.after call) fun tree hmem => h tree (List.mem_cons_of_mem _ hmem)
    refine ⟨c ++ c', ?_⟩
    rw [← List.append_assoc, ← hc]
    exact hc'

end Generator.Session

/-- The listing of more code goes on where the listing of the first part ends. -/
lemma Instruction.listing_append (c c' : List Instruction) :
    listing (c ++ c') = listing c ++ String.join (linesFrom c.length c') := by
  have hlines : ∀ (k : ℕ) (c : List Instruction),
      linesFrom k (c ++ c') = linesFrom k c ++ linesFrom (k + c.length) c' := by
    intro k c
    induction c generalizing k with
    | nil => rfl
    | cons i c ih =>
      rw [List.cons_append, linesFrom, linesFrom, ih, List.length_cons, List.cons_append,
        Nat.add_assoc, Nat.add_comm 1]
  rw [listing, listing, hlines, Nat.zero_add, ← String.toList_inj]
  simp [String.toList_join]

open Generator in
/-- However a generator has been used, also by calls that have stopped it halfway, as long as
temporaries are only put into the code after they have been drawn: every temporary in the code has a
number below the counter, so that the next one has another name than these and than all that were
drawn since code was last generated. The labels that were drawn since then differ too. Until code is
generated again, the listing only grows at its end; and then everything is as with a generator that
was never used. -/
theorem drawn_temporaries_fresh {calls : List Call} {s : Session}
    (h : Session.AllowsAll {} calls) (hs : Session.afterAll {} calls = s) :
    (∀ i ∈ s.generator.instructions, ∀ o ∈ i.operands, o.isTemporary = true →
      ∃ k < s.generator.temporaries, o = .temporary (k : ℕ)) ∧
    (∃ o g, Generate.newTemporary s.generator = .ok o g ∧
      (∀ i ∈ s.generator.instructions, ∀ x ∈ i.operands, x.isTemporary = true →
        x.name ≠ o.name) ∧
      ∀ x ∈ s.temporaries, x.name ≠ o.name) ∧
    (s.temporaries.map Operand.name).Nodup ∧
    s.labels.Nodup ∧
    (∀ more : List Call, (∀ tree, .code tree ∉ more) →
      ∃ c, (s.afterAll more).generator.instructions = s.generator.instructions ++ c ∧
        Instruction.listing (s.afterAll more).generator.instructions =
          Instruction.listing s.generator.instructions ++
            String.join (Instruction.linesFrom s.generator.instructions.length c)) ∧
    ∀ tree, Generate.code tree s.generator = Generate.code tree {} := by
  subst hs
  have hsound := Session.sound_initial.afterAll h
  obtain ⟨htemps, hlabels⟩ := hsound.nodup
  refine ⟨hsound.bounded, ⟨_, _, rfl, ?_, ?_⟩, htemps, hlabels, ?_, ?_⟩
  · intro i hi x hx
    exact (hsound.bounded i hi x hx).name_ne
  · intro x hx
    obtain ⟨k, hk, rfl⟩ := hsound.exists_eq hx
    exact Operand.Drawn.name_ne (fun _ => ⟨k, hk, rfl⟩) rfl
  · intro more hmore
    obtain ⟨c, hc⟩ := Session.exists_instructions_afterAll (Session.afterAll {} calls) hmore
    rw [hc, Instruction.listing_append]
    exact ⟨c, rfl, rfl⟩
  · intro tree
    rw [Generate.code_eq, Generate.code_eq]

open Generator in
/-- Generating code stops at an operator without an operation, and its temporary is lost. -/
theorem temporary_of_stopped_code_not_drawn_again :
    ∃ (calls : List Call) (s : Session), Session.AllowsAll {} calls ∧
      Session.afterAll {} calls = s ∧
      Instruction.listing s.generator.instructions =
        "\t0: SUB T_0 س\n\t1: PRINT T_0\n\t2: ADD T_2 T_3\nL0:\n" ∧
      s.temporaries = [.temporary 2, .temporary 3] ∧ s.labels = ["L0", "L1"] ∧
      (∃ o g, Generate.newTemporary s.generator = .ok o g ∧
        ∀ i ∈ s.generator.instructions, ∀ x ∈ i.operands, x.isTemporary = true →
          x.name ≠ o.name) ∧
      (∃ c, (s.afterAll [.emitLabel "L1"]).generator.instructions =
        s.generator.instructions ++ c) ∧
      Generate.code (.block ⟨1, 1⟩ []) s.generator = Generate.code (.block ⟨1, 1⟩ []) {} := by
  let x : Node := .access ⟨1, 5⟩ "س" none
  let tree : Node := .block ⟨1, 1⟩ [
    .print ⟨1, 2⟩ [.unary ⟨1, 4⟩ ⟨.minus, "-", .absent, ⟨1, 4⟩⟩ x] none,
    .print ⟨2, 2⟩ [.unary ⟨2, 4⟩ ⟨.comma, ",", .absent, ⟨2, 4⟩⟩ x] none]
  let calls : List Call := [.newTemporary, .code tree, .newTemporary, .newTemporary,
    .emit { op := .add, result := some (.temporary 2), arg1 := some (.temporary 3) },
    .newLabel, .emitLabel "L0", .newLabel]
  have hallow : Session.AllowsAll {} calls := by
    refine ⟨trivial, trivial, trivial, trivial, ?_, trivial, trivial, trivial, trivial⟩
    intro o ho _
    exact ho
  obtain ⟨-, ⟨o, g, hnew, hother, -⟩, -, -, hmore, hcode⟩ := drawn_temporaries_fresh hallow rfl
  obtain ⟨c, hc, -⟩ := hmore [.emitLabel "L1"] (by simp)
  exact ⟨calls, _, hallow, rfl, by decide +kernel, rfl, by decide +kernel,
    ⟨o, g, hnew, hother⟩, ⟨c, hc⟩, hcode _⟩

end Barnamaj
