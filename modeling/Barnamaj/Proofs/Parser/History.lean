import Barnamaj.Proofs.Parser.Acceptance
import Barnamaj.Proofs.Parser.Comparison

/-!
# Parsers that are used again

A parser can be used on after a parse, also after one that has failed. It keeps nothing of the past
but its place in the text and the levels that are still counted as open. Each parse that is refused
for its nesting leaves one such level (`Parser.depth_afterAll`), and every level that was left
lowers the limit of later parses by one. As long as no parse is refused for this reason, a parser is
as good as a fresh one at the same place.
-/

namespace Barnamaj

namespace Parser

/-- What is done with a parser from outside: move on by a token, or parse a program. -/
inductive Call where
  | advance
  | program
deriving DecidableEq

/-- The parser after a step, also after one that fails. -/
def leftBy {α : Type} (m : Parse α) (p : Parser) : Parser :=
  match m p with
  | .ok _ q => q
  | .error _ q => q

/-- The parser after a call. -/
def Call.after (p : Parser) : Call → Parser
  | .advance => leftBy Parse.advance p
  | .program => leftBy Parse.program p

/-- One if the call is a parse that is refused for its nesting, and else zero. -/
def Call.refusals (p : Parser) : Call → Nat
  | .advance => 0
  | .program =>
    match Parse.program p with
    | .ok _ _ => 0
    | .error e _ => e.residue

/-- The parser after some calls, one after the other. -/
def afterAll (p : Parser) (calls : List Call) : Parser :=
  calls.foldl Call.after p

/-- The number of parses among the calls that are refused for their nesting. -/
def refusals : Parser → List Call → Nat
  | _, [] => 0
  | p, call :: calls => call.refusals p + refusals (call.after p) calls

/-- A parser like one that has just been made at the same place. -/
def fresh (p : Parser) : Parser :=
  { p with depth := 0 }

/-- What is seen of a parse: the tree or the report of the fault, the token that the parser looks at
in the end, and the place in the text behind it. -/
structure Outcome where
  result : Except Diagnostic Program
  current : Token
  source : Cursor
deriving DecidableEq

/-- What is seen of the parse of a program. -/
def outcome (p : Parser) : Outcome :=
  match Parse.program p with
  | .ok tree q => ⟨.ok tree, q.current, q.source⟩
  | .error e q => ⟨.error e.diagnostic, q.current, q.source⟩

/-- Parsing a program from here is refused for its nesting. -/
def RefusedForNesting (p : Parser) : Prop :=
  ∃ t q, Parse.program p = .error (.grammar ⟨.nestedTooDeeply, t⟩) q

end Parser

/-- A text side by side with itself. A refusal is excused where the second parser counts fewer
levels as open. -/
def Comparison.counting (d d' : Nat) (h : d' ≤ d) : Comparison Cursor Cursor where
  token := Eq
  supply := Eq
  depth := d
  depth' := d'
  excused e := d' < d ∧ ∃ t, e = .grammar ⟨.nestedTooDeeply, t⟩
  toLexeme_eq h := congrArg Token.toLexeme h
  read := by
    rintro s s' rfl
    refine Or.inr ⟨rfl, ?_⟩
    cases h : Supply.read s with
    | ok t => exact Or.inl ⟨t, t, rfl, rfl, rfl⟩
    | error l => exact Or.inr ⟨l, rfl, rfl⟩
  depth_le := h
  nested t hlt := ⟨hlt, t, rfl⟩

namespace Parser

variable {p q : Parser} {ts : List Token}

/-! ### What is left counted as open -/

lemma depth_leftBy_advance (p : Parser) : (leftBy Parse.advance p).depth = p.depth := by
  rw [leftBy]
  cases h : Supply.read p.source with
  | ok t => rw [Parse.advance_of_read h]
  | error l => rw [Parse.advance_of_fault h]

/-- A call leaves one more level counted as open if it is refused for its nesting. -/
lemma depth_after (p : Parser) (call : Call) : (call.after p).depth = p.depth + call.refusals p := by
  cases call with
  | advance => exact depth_leftBy_advance p
  | program =>
    have hself := Comparison.simulates_program (C := .counting p.depth p.depth le_rfl) p p
      ⟨rfl, rfl, rfl, rfl⟩
    simp only [Call.after, Call.refusals, leftBy]
    cases h : Parse.program p with
    | ok tree q =>
      rw [h] at hself
      cases hself with
      | ok _ hq => exact hq.depth
    | error e q =>
      rw [h] at hself
      cases hself with
      | error _ hq => exact hq.depth
      | excused he => exact absurd he.1 (lt_irrefl _)

/-- As many levels stay counted as open as parses were refused for their nesting. -/
lemma depth_afterAll (p : Parser) (calls : List Call) :
    (p.afterAll calls).depth = p.depth + refusals p calls := by
  induction calls generalizing p with
  | nil => rfl
  | cons call calls ih =>
    have hrest := ih (call.after p)
    rw [depth_after, Nat.add_assoc] at hrest
    exact hrest

/-! ### Outcomes -/

/-- Unless it is refused for its nesting, a parse shows what a fresh one shows. -/
lemma outcome_eq_outcome_fresh (h : p.depth = 0 ∨ ¬ p.RefusedForNesting) :
    p.outcome = p.fresh.outcome := by
  have hpair := Comparison.simulates_program (C := .counting p.depth 0 (Nat.zero_le _)) p p.fresh
    ⟨rfl, rfl, rfl, rfl⟩
  simp only [outcome]
  generalize hx : Parse.program p = x at hpair ⊢
  generalize hy : Parse.program p.fresh = y at hpair ⊢
  cases hpair with
  | ok hv hq =>
    have htree := Program.Alike.eq hv
    simp only [htree, show _ = _ from hq.current, show _ = _ from hq.source]
  | error he hq =>
    have herror := ParseError.Alike.eq he
    simp only [herror, show _ = _ from hq.current, show _ = _ from hq.source]
  | excused he =>
    obtain ⟨hlt, t, rfl⟩ := he
    rcases h with h | h
    · omega
    · exact absurd ⟨t, _, hx⟩ h

lemma advance_fresh (h : Parse.advance p = .ok () q) : Parse.advance p.fresh = .ok () q.fresh := by
  cases hr : Supply.read p.source with
  | error l =>
    rw [Parse.advance_of_fault hr] at h
    cases h
  | ok t =>
    rw [Parse.advance_of_read hr] at h
    cases h
    exact Parse.advance_of_read hr

lemma Moves.fresh (h : p.Moves ts q) : p.fresh.Moves ts q.fresh := by
  induction h with
  | refl p => exact .refl p.fresh
  | step ha _ ih => exact .step (advance_fresh ha) ih

/-- Within the limit of the heights, the tokens of a program are accepted exactly if they open no
more levels than are not counted as open already. -/
lemma result_eq_ok_iff {n : Nat} {tree : Program} (hm : p.Moves ts q)
    (hd : DerivesProgram n ts tree) (hh : ∀ e ∈ tree.expressions, e.height ≤ 250) :
    p.outcome.result = .ok tree ↔ n ≤ 100 - p.depth := by
  obtain ⟨hok, hover⟩ := Parse.limited_program hd hm
  constructor
  · intro h
    by_contra hn
    obtain ⟨fault, t, r, -, hp⟩ := hover fun hc => hn hc.1
    simp only [outcome, hp] at h
    cases h
  · intro hn
    rw [outcome, hok ⟨hn, hh⟩]

end Parser

/-- What a parser shows that has been used before. It has counted as many levels as open as parses
before were refused for their nesting. If there were none, or if the parse is not refused for this
reason itself, it shows what a parser shows that has just been made at the same place. But tokens
that derive a program are accepted only up to a nesting of a hundred less the number of refusals,
whereas a parser that has just been made accepts them up to a hundred. -/
theorem outcome_after_calls {source : String} {p₀ : Parser}
    (h : Parser.start (.ofSource source) = .ok p₀) (calls : List Parser.Call) :
    (p₀.afterAll calls).depth = p₀.refusals calls ∧
    (p₀.refusals calls = 0 ∨ ¬ (p₀.afterAll calls).RefusedForNesting →
      (p₀.afterAll calls).outcome = (p₀.afterAll calls).fresh.outcome) ∧
    (∀ n ts tree q, (p₀.afterAll calls).Moves ts q → DerivesProgram n ts tree →
      (∀ e ∈ tree.expressions, e.height ≤ 250) →
      ((p₀.afterAll calls).outcome.result = .ok tree ↔ n ≤ 100 - p₀.refusals calls) ∧
      ((p₀.afterAll calls).fresh.outcome.result = .ok tree ↔ n ≤ 100)) := by
  have hdepth : (p₀.afterAll calls).depth = p₀.refusals calls := by
    rw [Parser.depth_afterAll, (Parser.start_eq_ok h).2, Nat.zero_add]
  refine ⟨hdepth, fun hcalls => ?_, fun n ts tree q hm hd hh => ⟨?_, ?_⟩⟩
  · exact Parser.outcome_eq_outcome_fresh (hdepth.symm ▸ hcalls)
  · rw [Parser.result_eq_ok_iff hm hd hh, hdepth]
  · exact Parser.result_eq_ok_iff hm.fresh hd hh

/-- A text with two programs: the nesting of the first one is refused, and that of the second one
just keeps the limit. -/
def twoNestedPrograms : List Char :=
  "برنامج ب;\x7bس=".toList ++ List.replicate 101 '!' ++
    (" برنامج ب;\x7bس=".toList ++ List.replicate 100 '!' ++ "1\x7d.".toList)

theorem refused_parse_lowers_limit : ∃ p₀,
    Parser.start (.ofSource (String.ofList twoNestedPrograms)) = .ok p₀ ∧
    p₀.refusals [.program, .advance] = 1 ∧
    (p₀.afterAll [.program, .advance]).outcome.result.isOk = false ∧
    (p₀.afterAll [.program, .advance]).fresh.outcome.result.isOk = true := by
  let p₀ : Parser :=
    { current := ⟨.programKw, "برنامج", .absent, ⟨1, 1⟩⟩
      source := { rest := twoNestedPrograms.drop 6, offset := 6, line := 1, column := 7 } }
  let p₁ : Parser :=
    { current := ⟨.programKw, "برنامج", .absent, ⟨1, 115⟩⟩
      source := { rest := twoNestedPrograms.drop 120, offset := 120, line := 1, column := 121 }
      depth := 1 }
  have h : Parser.start (.ofSource (String.ofList twoNestedPrograms)) = .ok p₀ := by
    rw [Cursor.ofSource, String.toList_ofList]
    decide +kernel
  have hafter : p₀.afterAll [.program, .advance] = p₁ := by decide +kernel
  obtain ⟨hdepth, -⟩ := outcome_after_calls h [.program, .advance]
  refine ⟨p₀, h, ?_⟩
  rw [← hdepth, hafter]
  exact ⟨rfl, by decide +kernel, by decide +kernel⟩

end Barnamaj
