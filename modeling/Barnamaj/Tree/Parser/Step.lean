import Barnamaj.Token.Cursor
import Barnamaj.Tree.Grammar

/-!
# Steps of a parser

A parser looks at one token and pulls the next one from its supply, such as a source text, when it
moves on. What it does is put together from steps, which may fail. The predicates `Keeps`,
`Consumes` and `ConsumesSome` say how a step changes what is left to read; a step that consumes
whenever it finds something can be repeated until it finds nothing (`collect`).
-/

namespace Barnamaj

/-- A parser: the token it looks at, what there is behind that token, by default a place in a source
text, and the number of levels that are counted as open between two parses. -/
structure Parser (σ : Type := Cursor) where
  current : Token
  source : σ
  depth : Nat := 0
deriving DecidableEq

/-- A step of a parser of a supply. A step that fails still leaves the parser where it got to. -/
abbrev ParseFrom (σ : Type) := EStateM ParseError (Parser σ)

/-- A step of a parser of a source text. -/
abbrev Parse := ParseFrom Cursor

namespace Parser

variable {σ : Type} [Supply σ]

/-- A parser that looks at the first token of a supply. -/
def ofSupply (s : σ) : Except LexicalError (Parser σ) :=
  (Supply.read s).map fun t => { current := t, source := Supply.rest s }

/-- A parser that looks at the first token behind a cursor. -/
def start (c : Cursor) : Except LexicalError Parser := ofSupply c

/-- A measure of what is left to read: what there is behind the current token, and the token itself
unless it is the end. -/
def remaining (p : Parser σ) : Nat :=
  Supply.size p.source + if p.current.kind = .eof then 0 else 1

end Parser

namespace Parse

variable {σ α β : Type}

/-- A sequence that succeeds is a success of its first step and then of its second. -/
theorem bind_eq_ok {m : ParseFrom σ α} {f : α → ParseFrom σ β} {p q : Parser σ} {b : β}
    (h : (m >>= f) p = .ok b q) : ∃ a r, m p = .ok a r ∧ f a r = .ok b q := by
  simp only [bind, EStateM.bind] at h
  split at h
  · next a r hm => exact ⟨a, r, hm, h⟩
  · cases h

variable [Supply σ]

/-! ### Tokens -/

/-- The token the parser looks at. -/
def current : ParseFrom σ Token := fun p => .ok p.current p

/-- Look at the next token. If it cannot be read, the parser looks at the same token as before, and
the supply goes on behind the fault. -/
def advance : ParseFrom σ Unit := fun p =>
  match Supply.read p.source with
  | .ok t => .ok () { p with current := t, source := Supply.rest p.source }
  | .error e => .error (.lexical e) { p with source := Supply.rest p.source }

/-- Report a fault of the current token. -/
def fail (fault : GrammarFault) : ParseFrom σ α := fun p =>
  .error (.grammar ⟨fault, p.current⟩) p

/-- Take the current token if its kind is one of those given. -/
def accept (kinds : List TokenKind) : ParseFrom σ (Option Token) := do
  let token ← current
  if token.kind ∈ kinds then
    advance
    return some token
  else
    return none

/-- Take the current token, which must fill the given place. -/
def expect (place : Expectation) : ParseFrom σ Token := do
  match ← accept [place.kind] with
  | some token => return token
  | none => fail (.missing place)

/-! ### Progress -/

/-- A step that never leaves more to read than there was. -/
def Keeps (m : ParseFrom σ α) : Prop :=
  ∀ p a q, m p = .ok a q → q.remaining ≤ p.remaining

/-- A step that leaves less to read than there was, whenever it succeeds. -/
def Consumes (m : ParseFrom σ α) : Prop :=
  ∀ p a q, m p = .ok a q → q.remaining < p.remaining

/-- A step that leaves less to read than there was, whenever it finds something. -/
def ConsumesSome (m : ParseFrom σ (Option α)) : Prop :=
  ∀ p a q, m p = .ok (some a) q → q.remaining < p.remaining

theorem Consumes.keeps {m : ParseFrom σ α} (h : Consumes m) : Keeps m :=
  fun p a q hq => Nat.le_of_lt (h p a q hq)

theorem keeps_pure (a : α) : Keeps (pure a : ParseFrom σ α) := by
  intro p b q h
  cases h
  exact Nat.le_refl _

theorem keeps_throw (e : ParseError) : Keeps (throw e : ParseFrom σ α) := by
  intro p a q h
  cases h

theorem consumes_fail (fault : GrammarFault) : Consumes (fail fault : ParseFrom σ α) := by
  intro p a q h
  cases h

theorem keeps_current : Keeps (current : ParseFrom σ Token) := by
  intro p a q h
  cases h
  exact Nat.le_refl _

theorem Keeps.bind {m : ParseFrom σ α} {f : α → ParseFrom σ β} (hm : Keeps m)
    (hf : ∀ a, Keeps (f a)) : Keeps (m >>= f) := by
  intro p b q h
  obtain ⟨a, r, hr, hq⟩ := bind_eq_ok h
  exact Nat.le_trans (hf a r b q hq) (hm p a r hr)

theorem Consumes.bind {m : ParseFrom σ α} {f : α → ParseFrom σ β} (hm : Consumes m)
    (hf : ∀ a, Keeps (f a)) : Consumes (m >>= f) := by
  intro p b q h
  obtain ⟨a, r, hr, hq⟩ := bind_eq_ok h
  exact Nat.lt_of_le_of_lt (hf a r b q hq) (hm p a r hr)

theorem Keeps.bind_consumes {m : ParseFrom σ α} {f : α → ParseFrom σ β} (hm : Keeps m)
    (hf : ∀ a, Consumes (f a)) : Consumes (m >>= f) := by
  intro p b q h
  obtain ⟨a, r, hr, hq⟩ := bind_eq_ok h
  exact Nat.lt_of_lt_of_le (hf a r b q hq) (hm p a r hr)

/-- A choice on what was found consumes if finding something does, and if the way on from nothing
does. -/
theorem ConsumesSome.bind {m : ParseFrom σ (Option α)} {f : Option α → ParseFrom σ β}
    (hm : ConsumesSome m) (hk : Keeps m) (hsome : ∀ a, Keeps (f (some a)))
    (hnone : Consumes (f none)) : Consumes (m >>= f) := by
  intro p b q h
  obtain ⟨o, r, hr, hq⟩ := bind_eq_ok h
  cases o with
  | none => exact Nat.lt_of_lt_of_le (hnone r b q hq) (hk p _ r hr)
  | some a => exact Nat.lt_of_le_of_lt (hsome a r b q hq) (hm p a r hr)

/-- Reading a token leaves at most as much as there was, and less unless it is the end. -/
theorem size_rest_of_read {s : σ} {t : Token} (h : Supply.read s = .ok t) :
    Supply.size (Supply.rest s) + (if t.kind = .eof then 0 else 1) ≤ Supply.size s := by
  by_cases ht : t.kind = .eof
  · simp only [ht, ↓reduceIte, Nat.add_zero]
    exact Supply.size_rest_le s
  · simp only [ht, ↓reduceIte]
    apply Supply.size_rest_lt
    intro u hu
    rw [h] at hu
    cases hu
    exact ht

theorem remaining_advance {p q : Parser σ} {u : Unit} (h : advance p = .ok u q) :
    q.remaining ≤ Supply.size p.source := by
  simp only [advance] at h
  split at h
  · next t hr =>
    cases h
    exact size_rest_of_read hr
  · cases h

theorem keeps_advance : Keeps (advance : ParseFrom σ Unit) := by
  intro p u q h
  exact Nat.le_trans (remaining_advance h) (Nat.le_add_right _ _)

theorem keeps_accept (kinds : List TokenKind) :
    Keeps (accept kinds : ParseFrom σ (Option Token)) := by
  refine keeps_current.bind fun token => ?_
  split
  · exact keeps_advance.bind fun _ => keeps_pure _
  · exact keeps_pure _

theorem consumesSome_accept {kinds : List TokenKind} (hk : .eof ∉ kinds) :
    ConsumesSome (accept kinds : ParseFrom σ (Option Token)) := by
  intro p t q h
  obtain ⟨token, r, hr, h⟩ := bind_eq_ok h
  cases hr
  split at h
  · next hmem =>
    obtain ⟨u, r, hr, h⟩ := bind_eq_ok h
    have hne : p.current.kind ≠ .eof := fun he => hk (he ▸ hmem)
    cases h
    have := remaining_advance hr
    simp only [Parser.remaining, hne, ↓reduceIte] at this ⊢
    omega
  · cases h

theorem consumes_expect {place : Expectation} (hk : place.kind ≠ .eof) :
    Consumes (expect place : ParseFrom σ Token) := by
  refine (consumesSome_accept ?_).bind (keeps_accept _) ?_ ?_
  · simpa using hk.symm
  · exact fun token => keeps_pure token
  · exact consumes_fail _

theorem keeps_expect (place : Expectation) : Keeps (expect place : ParseFrom σ Token) := by
  refine (keeps_accept _).bind fun found => ?_
  cases found with
  | none => exact (consumes_fail _).keeps
  | some token => exact keeps_pure token

/-! ### Repetition -/

/-- What repeating a step from a parser on finds, and the parser after it. -/
def collectFrom (step : ParseFrom σ (Option α)) (hs : ConsumesSome step)
    (p : Parser σ) : EStateM.Result ParseError (Parser σ) (List α) :=
  match _h : step p with
  | .error e q => .error e q
  | .ok none q => .ok [] q
  | .ok (some a) q =>
    match collectFrom step hs q with
    | .ok as r => .ok (a :: as) r
    | .error e r => .error e r
termination_by p.remaining
decreasing_by exact hs p a q _h

/-- Repeat a step that consumes tokens as long as it finds something. -/
def collect (step : ParseFrom σ (Option α)) (hs : ConsumesSome step) : ParseFrom σ (List α) :=
  fun p => collectFrom step hs p

theorem keeps_collect {step : ParseFrom σ (Option α)} (hs : ConsumesSome step) (hk : Keeps step) :
    Keeps (collect step hs) := by
  intro p
  induction hn : p.remaining using Nat.strongRecOn generalizing p with
  | _ n ih =>
    intro as q h
    rw [collect, collectFrom] at h
    split at h
    · cases h
    · next r hr =>
      cases h
      exact hn ▸ hk p _ _ hr
    · next a r hr =>
      have hlt : r.remaining < n := hn ▸ hs p a r hr
      split at h
      · next bs t ht =>
        cases h
        exact Nat.le_trans (ih _ hlt r rfl bs _ ht) (Nat.le_of_lt hlt)
      · cases h

end Parse

end Barnamaj
