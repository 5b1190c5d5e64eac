import Barnamaj.Tree.Parser.Program
import Mathlib.Order.Lattice
import Mathlib.Tactic.Common

/-!
# Moves of a parser

What the basic steps of a parser do, said once: `accept` and `expect` take the current token or
leave the parser where it is. `Parser.Moves p ts q` says that taking the tokens `ts` one after the
other leads from `p` to `q`; it does not depend on what lies in the source text behind `q`.
-/

namespace Barnamaj

namespace Parse

variable {σ α β : Type} {m : ParseFrom σ α} {f : α → ParseFrom σ β} {p q : Parser σ}

/-! ### Sequences -/

lemma bind_of_ok {a : α} (h : m p = .ok a q) : (m >>= f) p = f a q := by
  simp only [bind, EStateM.bind, h]

lemma bind_of_error {e : ParseError} (h : m p = .error e q) : (m >>= f) p = .error e q := by
  simp only [bind, EStateM.bind, h]

/-- A sequence that fails is a failure of its first step, or of its second after a success. -/
lemma bind_eq_error {e : ParseError} (h : (m >>= f) p = .error e q) :
    m p = .error e q ∨ ∃ a r, m p = .ok a r ∧ f a r = .error e q := by
  simp only [bind, EStateM.bind] at h
  split at h
  · next a r hm => exact Or.inr ⟨a, r, hm, h⟩
  · next e' r hm =>
    cases h
    exact Or.inl hm

/-! ### Single tokens -/

/-- A token that would open a level is refused, and the level stays counted as open. -/
lemma refuse_of_mem (hk : p.current.kind ∈ [TokenKind.lparen, .not]) :
    refuse p = .error (.grammar ⟨.nestedTooDeeply, p.current⟩) { p with depth := p.depth + 1 } := by
  have hc : current p = .ok p.current p := rfl
  rw [refuse, bind_of_ok hc, if_pos hk]
  rfl

lemma refuse_of_notMem (hk : p.current.kind ∉ [TokenKind.lparen, .not]) :
    refuse p = .error (.grammar ⟨.noFactor, p.current⟩) p := by
  have hc : current p = .ok p.current p := rfl
  rw [refuse, bind_of_ok hc, if_neg hk]
  rfl

variable [Supply σ]

lemma advance_of_read {t : Token} (h : Supply.read p.source = .ok t) :
    advance p = .ok () { p with current := t, source := Supply.rest p.source } := by
  simp only [advance, h]

lemma advance_of_fault {l : LexicalError} (h : Supply.read p.source = .error l) :
    advance p = .error (.lexical l) { p with source := Supply.rest p.source } := by
  simp only [advance, h]

lemma advance_eq_error {e : ParseError} (h : advance p = .error e q) : ∃ l, e = .lexical l := by
  simp only [advance] at h
  split at h
  · cases h
  · cases h
    exact ⟨_, rfl⟩

lemma depth_advance (h : advance p = .ok () q) : q.depth = p.depth := by
  simp only [advance] at h
  split at h
  · cases h
    rfl
  · cases h

lemma accept_of_mem {kinds : List TokenKind} (hk : p.current.kind ∈ kinds)
    (h : advance p = .ok () q) : accept kinds p = .ok (some p.current) q := by
  have hc : current p = .ok p.current p := rfl
  rw [accept, bind_of_ok hc, if_pos hk, bind_of_ok h]
  rfl

lemma accept_of_notMem {kinds : List TokenKind} (hk : p.current.kind ∉ kinds) :
    accept kinds p = .ok none p := by
  have hc : current p = .ok p.current p := rfl
  rw [accept, bind_of_ok hc, if_neg hk]
  rfl

/-- What `accept` can do: take the token, leave it, or fail to read the one behind it. -/
lemma accept_cases (kinds : List TokenKind) (p : Parser σ) :
    (p.current.kind ∉ kinds ∧ accept kinds p = .ok none p) ∨
    (∃ q, p.current.kind ∈ kinds ∧ advance p = .ok () q ∧
      accept kinds p = .ok (some p.current) q) ∨
    (∃ l q, accept kinds p = .error (.lexical l) q) := by
  by_cases hk : p.current.kind ∈ kinds
  · right
    cases ha : advance p with
    | ok u q => exact Or.inl ⟨q, hk, rfl, accept_of_mem hk ha⟩
    | error e q =>
      obtain ⟨l, rfl⟩ := advance_eq_error ha
      have hc : current p = .ok p.current p := rfl
      refine Or.inr ⟨l, q, ?_⟩
      rw [accept, bind_of_ok hc, if_pos hk, bind_of_error ha]
  · exact Or.inl ⟨hk, accept_of_notMem hk⟩

lemma accept_eq_some {kinds : List TokenKind} {t : Token} (h : accept kinds p = .ok (some t) q) :
    t = p.current ∧ p.current.kind ∈ kinds ∧ advance p = .ok () q := by
  rcases accept_cases kinds p with ⟨_, ha⟩ | ⟨r, hk, hr, ha⟩ | ⟨l, r, ha⟩
  · rw [ha] at h; cases h
  · rw [ha] at h
    cases h
    exact ⟨rfl, hk, hr⟩
  · rw [ha] at h; cases h

lemma accept_eq_none {kinds : List TokenKind} (h : accept kinds p = .ok none q) :
    p = q ∧ p.current.kind ∉ kinds := by
  rcases accept_cases kinds p with ⟨hk, ha⟩ | ⟨r, _, _, ha⟩ | ⟨l, r, ha⟩
  · rw [ha] at h
    cases h
    exact ⟨rfl, hk⟩
  · rw [ha] at h; cases h
  · rw [ha] at h; cases h

lemma expect_of_advance {place : Expectation} (hk : p.current.kind = place.kind)
    (h : advance p = .ok () q) : expect place p = .ok p.current q := by
  rw [expect, bind_of_ok (accept_of_mem (by simp [hk]) h)]
  rfl

lemma expect_eq_ok {place : Expectation} {t : Token} (h : expect place p = .ok t q) :
    t = p.current ∧ p.current.kind = place.kind ∧ advance p = .ok () q := by
  obtain ⟨found, r, hr, h⟩ := bind_eq_ok h
  cases found with
  | none => cases h
  | some t =>
    obtain ⟨rfl, hk, ha⟩ := accept_eq_some hr
    cases h
    exact ⟨rfl, List.mem_singleton.mp hk, ha⟩

/-! ### Repetition -/

section Collect

variable {step : ParseFrom σ (Option α)} {hs : ConsumesSome step}

lemma collect_of_none (h : step p = .ok none q) : collect step hs p = .ok [] q := by
  rw [collect, collectFrom]
  split
  · next h' => rw [h] at h'; cases h'
  · next h' => rw [h] at h'; cases h'; rfl
  · next h' => rw [h] at h'; cases h'

lemma collect_of_error {e : ParseError} (h : step p = .error e q) :
    collect step hs p = .error e q := by
  rw [collect, collectFrom]
  split
  · next h' => rw [h] at h'; cases h'; rfl
  · next h' => rw [h] at h'; cases h'
  · next h' => rw [h] at h'; cases h'

/-- After something was found, the repetition goes on as it would have started there. -/
lemma collect_of_some {a : α} (h : step p = .ok (some a) q) :
    collect step hs p = (do return a :: (← collect step hs)) q := by
  rw [collect, collectFrom]
  split
  · next h' => rw [h] at h'; cases h'
  · next h' => rw [h] at h'; cases h'
  · next b r h' =>
    rw [h] at h'
    cases h'
    simp only [bind, EStateM.bind, collect]
    cases collectFrom step hs q <;> rfl

/-- The turns of a repetition that succeeds: finds one after the other, and then none. -/
inductive Collected (step : ParseFrom σ (Option α)) : Parser σ → List α → Parser σ → Prop where
  | nil {p q : Parser σ} (h : step p = .ok none q) : Collected step p [] q
  | cons {p q r : Parser σ} {a : α} {as : List α} (h : step p = .ok (some a) q)
      (hs : Collected step q as r) : Collected step p (a :: as) r

lemma collected_of_collect {as : List α} (h : collect step hs p = .ok as q) :
    Collected step p as q := by
  -- each find leaves less to read
  induction hn : p.remaining using Nat.strongRecOn generalizing p as with
  | _ n ih =>
    match hp : step p with
    | .error e r =>
      rw [collect_of_error hp] at h
      cases h
    | .ok none r =>
      rw [collect_of_none hp] at h
      cases h
      exact .nil hp
    | .ok (some a) r =>
      rw [collect_of_some hp] at h
      obtain ⟨bs, s, hc, h⟩ := bind_eq_ok h
      cases h
      exact .cons hp (ih _ (hn ▸ hs p a r hp) hc rfl)

end Collect

end Parse

/-! ### Several tokens -/

namespace Parser

/-- Taking the tokens `ts` one after the other leads from one parser to another. -/
inductive Moves : Parser → List Token → Parser → Prop where
  | refl (p : Parser) : Moves p [] p
  | step {p q r : Parser} {ts : List Token} (h : Parse.advance p = .ok () q) (hs : Moves q ts r) :
      Moves p (p.current :: ts) r

variable {p q r : Parser} {ts us : List Token}

lemma Moves.single (h : Parse.advance p = .ok () q) : p.Moves [p.current] q :=
  .step h (.refl q)

lemma Moves.trans (h : p.Moves ts q) (h' : q.Moves us r) : p.Moves (ts ++ us) r := by
  induction h with
  | refl p => exact h'
  | step ha _ ih => exact .step ha (ih h')

lemma Moves.depth_eq (h : p.Moves ts q) : q.depth = p.depth := by
  induction h with
  | refl p => rfl
  | step ha _ ih => rw [ih, Parse.depth_advance ha]

@[simp] lemma moves_nil_iff : p.Moves [] q ↔ q = p := by
  constructor
  · intro h
    cases h
    rfl
  · rintro rfl
    exact .refl q

lemma moves_cons_iff {t : Token} :
    p.Moves (t :: ts) q ↔ p.current = t ∧ ∃ r, Parse.advance p = .ok () r ∧ r.Moves ts q := by
  constructor
  · intro h
    cases h with
    | step ha hs => exact ⟨rfl, _, ha, hs⟩
  · rintro ⟨rfl, r, ha, hs⟩
    exact .step ha hs

lemma moves_append_iff : p.Moves (ts ++ us) q ↔ ∃ r, p.Moves ts r ∧ r.Moves us q := by
  constructor
  · intro h
    induction ts generalizing p with
    | nil => exact ⟨p, .refl p, h⟩
    | cons t ts ih =>
      obtain ⟨rfl, r, ha, hs⟩ := moves_cons_iff.mp h
      obtain ⟨s, hrs, hsq⟩ := ih hs
      exact ⟨s, .step ha hrs, hsq⟩
  · rintro ⟨r, h, h'⟩
    exact h.trans h'

/-- Of two ways that start at one parser, one goes on where the other ends. -/
lemma Moves.prefix_or_prefix (h : p.Moves ts q) (h' : p.Moves us r) : ts <+: us ∨ us <+: ts := by
  induction h generalizing us with
  | refl p => exact Or.inl (List.nil_prefix)
  | step ha _ ih =>
    cases h' with
    | refl => exact Or.inr List.nil_prefix
    | step ha' hs =>
      rw [ha] at ha'
      cases ha'
      simpa using ih hs

/-- The token a parser looks at is the first of those it goes on to read. -/
lemma Moves.exists_eq_cons (h : p.Moves ts q) (us : List Token) :
    ∃ vs, ts ++ q.current :: us = p.current :: vs := by
  cases h with
  | refl => exact ⟨us, rfl⟩
  | step _ _ => exact ⟨_, rfl⟩

end Parser

end Barnamaj
