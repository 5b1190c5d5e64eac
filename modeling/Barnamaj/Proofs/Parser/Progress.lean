import Barnamaj.Proofs.Parser.Batch
import Barnamaj.Proofs.Parser.FirstFault
import Barnamaj.Proofs.Parser.History
import Barnamaj.Proofs.Parser.Walks
import Barnamaj.Proofs.Token.Motion

/-!
# Parsing moves on and ends

A routine that parses a part of a program moves on in the text: the token that the parser looks at
starts further back than before (`Parser.StartsAt`). Since no token is taken twice, and the end only
once and last, a parse pulls at most one token more than the text has. The pulled tokens are counted
by a supply that counts its readings (`Counted`).
-/

namespace Barnamaj

/-! ### Places in a text -/

namespace Cursor

variable {c : Cursor} {source : String} {t : Token}

lemma Within.behind (h : c.Within source) : Behind (source.toList.take c.offset) c := by
  have hle := h.offset_le
  refine ⟨?_, ?_⟩
  · rw [List.length_take, String.length_toList, Nat.min_eq_left hle]
  · rw [Position.after, position, h.line_eq, h.column_eq]
    push_cast
    rfl

lemma Within.advance (h : c.Within source) (n : ℕ) : (c.advance n).Within source := by
  refine (h.behind.advance n).within ?_
  rw [rest_advance, List.append_assoc, List.take_append_drop, h.rest_eq, List.take_append_drop]

end Cursor

namespace Parser

variable {source : String} {i j : ℕ} {p q : Parser} {ts : List Token}

/-- The parser stands in the text, and the token that it looks at starts behind `i` characters of
it. What is still to be read starts behind the token. -/
structure StartsAt (source : String) (i : ℕ) (p : Parser) : Prop where
  within : p.source.Within source
  position : p.current.position = .after (source.toList.take i)
  le_offset : i ≤ p.source.offset
  lt_offset : p.current.kind ≠ .eof → i < p.source.offset

/-- A token starts at one place only. -/
lemma StartsAt.unique (h : StartsAt source i p) (h' : StartsAt source j p) : i = j := by
  have hne : ∀ {i j}, StartsAt source i p → StartsAt source j p → ¬ i < j := by
    intro i j h h' hlt
    have hj : j ≤ source.toList.length := by
      rw [String.length_toList]
      exact h'.le_offset.trans h'.within.offset_le
    have hmore : (source.toList.drop i).take (j - i) ≠ [] := by
      rw [← List.length_pos_iff, List.length_take, List.length_drop]
      omega
    have hbefore := Position.after_before_append (source.toList.take i) hmore
    rw [← List.take_add, Nat.add_sub_cancel' hlt.le, ← h.position, ← h'.position] at hbefore
    exact hbefore.ne rfl
  have hij := hne h h'
  have hji := hne h' h
  omega

/-- A token that is read next starts behind what was read before. -/
lemma startsAt_of_opens {c : Cursor} (hc : c.Within source) (h : Opens c p) :
    ∃ j, StartsAt source j p ∧ c.offset ≤ j := by
  obtain ⟨ho, hn⟩ := h
  have hskip : c.skipBlanks.Within source := hc.advance _
  have hnext : ∃ k, p.source = c.skipBlanks.advance k := ⟨_, hn.symm⟩
  obtain ⟨k, hk⟩ := hnext
  refine ⟨c.skipBlanks.offset, ⟨?_, ?_, ?_, ?_⟩, c.offset_le_advance _⟩
  · rw [hk]
    exact hskip.advance k
  · rw [Cursor.position_of_nextToken ho]
    exact hskip.behind.position
  · rw [hk]
    exact c.skipBlanks.offset_le_advance k
  · intro hne
    rw [← hn]
    apply Cursor.offset_skipBlanks_lt
    simp [Reading.isEnd, ho, hne]

lemma StartsAt.passes (h : StartsAt source i p) (hp : p.Passes ts q) :
    ∃ j, StartsAt source j q ∧ i + ts.length ≤ j := by
  induction hp generalizing i with
  | refl p => exact ⟨i, h, le_rfl⟩
  | @step p q r ts hk ha _ ih =>
    obtain ⟨j, hj, hle⟩ := startsAt_of_opens h.within (opens_of_advance ha)
    obtain ⟨k, hk', hle'⟩ := ih hj
    have hlt := h.lt_offset hk
    refine ⟨k, hk', ?_⟩
    rw [List.length_cons]
    omega

lemma StartsAt.gains (h : StartsAt source i p) (hp : p.Gains q) :
    ∃ j, StartsAt source j q ∧ i < j := by
  obtain ⟨ts, hts, hpass⟩ := hp
  obtain ⟨j, hj, hle⟩ := h.passes hpass
  have hpos := List.length_pos_iff.mpr hts
  exact ⟨j, hj, by omega⟩

/-- A token stays where it is if what stands behind it cannot be read. -/
lemma StartsAt.unread {e : ParseError} (h : StartsAt source i p)
    (ha : Parse.advance p = .error e q) : StartsAt source i q := by
  cases ho : p.source.nextToken.outcome with
  | ok t =>
    rw [advance_of_ok ho] at ha
    cases ha
  | error l =>
    rw [Parse.advance_of_fault ho] at ha
    cases ha
    obtain ⟨n, hn⟩ := p.source.exists_next_nextToken_eq
    have hle := p.source.offset_le_advance n
    rw [← hn] at hle
    have hwithin : p.source.nextToken.next.Within source := by
      rw [hn]
      exact h.within.advance n
    exact ⟨hwithin, h.position, h.le_offset.trans hle, fun hk => (h.lt_offset hk).trans_le hle⟩

lemma StartsAt.leftBy_advance (h : StartsAt source i p) :
    ∃ j, StartsAt source j (leftBy Parse.advance p) ∧ i ≤ j := by
  rw [leftBy]
  cases ha : Parse.advance p with
  | ok _ q =>
    obtain ⟨j, hj, hle⟩ := startsAt_of_opens h.within (opens_of_advance ha)
    exact ⟨j, hj, h.le_offset.trans hle⟩
  | error e q => exact ⟨i, h.unread ha, le_rfl⟩

/-- A step that takes no end leaves the parser in the text, also where it fails. -/
lemma StartsAt.leftBy_of_walked {α : Type} {m : Parse α} (h : StartsAt source i p)
    (hm : Parse.Walked p (m p)) : ∃ j, StartsAt source j (leftBy m p) ∧ i ≤ j := by
  rw [leftBy]
  generalize hx : m p = x at hm
  cases hm with
  | ok hpass =>
    obtain ⟨j, hj, hle⟩ := h.passes hpass
    exact ⟨j, hj, by omega⟩
  | refused depth hpass =>
    obtain ⟨j, hj, hle⟩ := h.passes hpass
    exact ⟨j, ⟨hj.within, hj.position, hj.le_offset, hj.lt_offset⟩, by omega⟩
  | unread hpass _ ha =>
    obtain ⟨j, hj, hle⟩ := h.passes hpass
    exact ⟨j, hj.unread ha, by omega⟩

/-- Whatever is done with a parser from outside leaves it in the text. -/
lemma StartsAt.after (h : StartsAt source i p) (call : Call) :
    ∃ j, StartsAt source j (call.after p) ∧ i ≤ j := by
  cases call with
  | advance => exact h.leftBy_advance
  | program =>
    rcases Parse.program_cases p with hw | ⟨ts, q, hpass, -, hlast⟩
    · exact h.leftBy_of_walked hw
    · obtain ⟨j, hj, hle⟩ := h.passes hpass
      obtain ⟨k, hk, hle'⟩ := hj.leftBy_advance
      have heq : leftBy Parse.program p = leftBy Parse.advance q := by
        rcases hlast with ⟨tree, r, ha, hp⟩ | ⟨e, r, ha, hp⟩
        · rw [leftBy, leftBy, ha, hp]
        · rw [leftBy, leftBy, ha, hp]
      rw [Call.after, heq]
      exact ⟨k, hk, by omega⟩

lemma startsAt_of_start (h : start (.ofSource source) = .ok p) : ∃ i, StartsAt source i p := by
  have hwithin : (Cursor.ofSource source).Within source := Cursor.within_advance source 0
  obtain ⟨i, hi, -⟩ := startsAt_of_opens hwithin (start_eq_ok h).1
  exact ⟨i, hi⟩

end Parser

/-! ### Counted readings -/

/-- A supply with the number of readings that were made from it. -/
structure Counted (σ : Type) where
  supply : σ
  readings : Nat := 0

/-- What can be read does not depend on how much was read. -/
instance {σ : Type} [Supply σ] : Supply (Counted σ) where
  read s := Supply.read s.supply
  rest s := ⟨Supply.rest s.supply, s.readings + 1⟩
  size s := Supply.size s.supply
  size_rest_le s := Supply.size_rest_le s.supply
  size_rest_lt s := Supply.size_rest_lt s.supply

section

variable {σ α : Type} [Supply σ]

/-- The number of readings that were made until a step was over. -/
def readingsUntil : EStateM.Result ParseError (Parser (Counted σ)) α → Nat
  | .ok _ q => q.source.readings
  | .error _ q => q.source.readings

/-- The tree of what a supply holds, or the first fault in it, and the number of readings that were
made from the supply to find this out. -/
def parseCounting (s : σ) : Except ParseError Program × Nat :=
  match Parser.ofSupply (Counted.mk s 0) with
  | .error e => (.error (.lexical e), 1)
  | .ok p =>
    match Parse.program p with
    | .ok tree q => (.ok tree, q.source.readings)
    | .error e q => (.error e, q.source.readings)

/-- A supply with and without a count. -/
def Correspondence.ofCounted : Correspondence (Counted σ) σ where
  token := Eq
  supply s s' := s.supply = s'
  excused _ := False
  toLexeme_eq h := congrArg Token.toLexeme h
  read := by
    rintro s s' rfl
    refine Or.inr ⟨rfl, ?_⟩
    cases h : Supply.read s.supply with
    | ok t => exact Or.inl ⟨t, t, rfl, rfl, rfl⟩
    | error l => exact Or.inr ⟨l, rfl, rfl⟩

/-- Counting changes nothing in what is found. -/
lemma parseCounting_fst (s : σ) : (parseCounting s).1 = parseFrom s := by
  have hfst : (parseCounting s).1 = parseFrom (Counted.mk s 0) := by
    cases hp : Parser.ofSupply (Counted.mk s 0) with
    | error e => simp only [parseCounting, parseFrom, hp]
    | ok p => cases hx : Parse.program p <;> simp only [parseCounting, parseFrom, hp, hx]
  have hsupply : Correspondence.ofCounted.supply (Counted.mk s 0) s := rfl
  rw [hfst]
  exact Correspondence.ofCounted.parseFrom_eq hsupply rfl fun _ he => he

namespace Parser

variable {p q : Parser (Counted σ)} {ts : List Token}

/-- The parser without its count. -/
def uncounted (p : Parser (Counted σ)) : Parser σ :=
  ⟨p.current, p.source.supply, p.depth⟩

lemma advance_uncounted (h : Parse.advance p = .ok () q) :
    Parse.advance p.uncounted = .ok () q.uncounted ∧
      q.source.readings = p.source.readings + 1 := by
  cases hr : Supply.read p.source with
  | ok t =>
    rw [Parse.advance_of_read hr] at h
    cases h
    have hr' : Supply.read p.uncounted.source = .ok t := hr
    exact ⟨Parse.advance_of_read hr', rfl⟩
  | error l =>
    rw [Parse.advance_of_fault hr] at h
    cases h

lemma readings_of_advance_error {e : ParseError} (h : Parse.advance p = .error e q) :
    q.source.readings = p.source.readings + 1 := by
  cases hr : Supply.read p.source with
  | ok t =>
    rw [Parse.advance_of_read hr] at h
    cases h
  | error l =>
    rw [Parse.advance_of_fault hr] at h
    cases h
    rfl

/-- Each token that is passed takes one reading. -/
lemma Passes.uncounted (h : p.Passes ts q) :
    p.uncounted.Passes ts q.uncounted ∧ q.source.readings = p.source.readings + ts.length := by
  induction h with
  | refl p => exact ⟨.refl _, rfl⟩
  | @step p q r ts hk ha _ ih =>
    obtain ⟨hpass, hcount⟩ := ih
    obtain ⟨ha', hone⟩ := advance_uncounted ha
    refine ⟨.step hk ha' hpass, ?_⟩
    rw [hcount, hone, List.length_cons]
    omega

end Parser

lemma readingsUntil_of_walked {p : Parser (Counted σ)}
    {x : EStateM.Result ParseError (Parser (Counted σ)) α} (h : Parse.Walked p x) :
    ∃ ts q, p.Passes ts q ∧ readingsUntil x ≤ p.source.readings + ts.length + 1 := by
  cases h with
  | @ok _ q ts h =>
    refine ⟨ts, q, h, ?_⟩
    have hcount := h.uncounted.2
    rw [readingsUntil]
    omega
  | @refused _ r ts _ h =>
    refine ⟨ts, r, h, ?_⟩
    have hcount := h.uncounted.2
    rw [readingsUntil]
    dsimp only
    omega
  | @unread _ q r ts h _ ha =>
    refine ⟨ts, r, h, ?_⟩
    have hcount := h.uncounted.2
    have hone := Parser.readings_of_advance_error ha
    rw [readingsUntil]
    omega

/-- The parse of a program makes at most one reading more than it passes tokens. -/
lemma readingsUntil_program (p : Parser (Counted σ)) :
    ∃ ts q, p.Passes ts q ∧
      readingsUntil (Parse.program p) ≤ p.source.readings + ts.length + 1 := by
  rcases Parse.program_cases p with hw | ⟨ts, q, h, -, hlast⟩
  · exact readingsUntil_of_walked hw
  · refine ⟨ts, q, h, ?_⟩
    have hcount := h.uncounted.2
    rcases hlast with ⟨tree, r, ha, hp⟩ | ⟨e, r, ha, hp⟩
    · have hone := (Parser.advance_uncounted ha).2
      rw [hp, readingsUntil]
      omega
    · have hone := Parser.readings_of_advance_error ha
      rw [hp, readingsUntil]
      omega

end

lemma Parser.Passes.moves {p q : Parser} {ts : List Token} (h : p.Passes ts q) :
    p.Moves ts q ∧ ∀ t ∈ ts, t.kind ≠ .eof := by
  induction h with
  | refl p => exact ⟨.refl p, by simp⟩
  | step hk ha _ ih => exact ⟨.step ha ih.1, List.forall_mem_cons.mpr ⟨hk, ih.2⟩⟩

/-! ### Whole texts -/

variable {source : String}

/-- A parser of a text is made by one reading. -/
lemma opens_of_counted {c : Cursor} {p : Parser (Counted Cursor)}
    (h : Parser.ofSupply (Counted.mk c 0) = .ok p) :
    p.source.readings = 1 ∧ Parser.Opens c p.uncounted := by
  cases hr : Supply.read (Counted.mk c 0) with
  | error e =>
    rw [Parser.ofSupply, hr] at h
    cases h
  | ok t =>
    rw [Parser.ofSupply, hr] at h
    cases h
    exact ⟨rfl, hr, rfl⟩

/-- A parse makes at most one reading more than there are tokens that it looks at, and these are the
first tokens of the text. -/
lemma exists_tokens_of_parseCounting (source : String) :
    ∃ ts : List Token, ts.map .ok <+: (Cursor.ofSource source).outcomes ∧
      (parseCounting (Cursor.ofSource source)).2 ≤ ts.length + 1 := by
  cases hp : Parser.ofSupply (Counted.mk (Cursor.ofSource source) 0) with
  | error e =>
    refine ⟨[], List.nil_prefix, ?_⟩
    simp only [parseCounting, hp, List.length_nil]
    exact le_rfl
  | ok p =>
    have hcount : (parseCounting (Cursor.ofSource source)).2 = readingsUntil (Parse.program p) := by
      cases hx : Parse.program p <;> simp only [parseCounting, hp, hx, readingsUntil]
    obtain ⟨ts, q, hpass, hle⟩ := readingsUntil_program p
    obtain ⟨hmoves, hne⟩ := hpass.uncounted.1.moves
    obtain ⟨hone, hopens⟩ := opens_of_counted hp
    refine ⟨ts ++ [q.uncounted.current], hmoves.prefix_readings hopens hne, ?_⟩
    rw [hcount, List.length_append, List.length_singleton]
    omega

/-- Tokens that are read from a text are among those in front of its first fault. -/
lemma length_le_of_prefix_outcomes {e : LexicalError} {ks ts : List Token}
    {outcomes : List (Except LexicalError Token)} (hk : ks.map .ok ++ [.error e] <+: outcomes)
    (ht : ts.map .ok <+: outcomes) : ts.length ≤ ks.length := by
  by_contra hlt
  -- otherwise the fault would be among the tokens
  have hprefix : ks.map Except.ok ++ [Except.error e] <+: ts.map Except.ok := by
    apply List.prefix_of_prefix_length_le hk ht
    simp only [List.length_append, List.length_map, List.length_singleton]
    omega
  have hmem : Except.error e ∈ ts.map Except.ok := hprefix.subset (by simp)
  simp at hmem

/-- Every routine of the parser consumes what it parses, and so parsing ends. A routine for a part
that is never empty has taken a token whenever it succeeds, and so has every turn of a loop and
every step into a factor inside of another one. This leaves less to read. No routine takes the end,
whatever becomes of it; only a program may take one, in its last step. A parser that stands in a
text stays in it, whatever is done with it, and taking tokens moves the start of the token that it
looks at further back. So the parse of any text, which finds a tree, a grammar error or a lexical
fault, makes at most one reading for each token of the text, the end included, and one more. If the
text cannot be read as a whole, only the tokens in front of the fault count. -/
theorem parsing_consumes_and_ends :
    (∀ {σ α : Type} [Supply σ] {m : ParseFrom σ α}, Parse.Consuming m →
      ∀ p a q, m p = .ok a q → p.Gains q) ∧
    (∀ {σ : Type} [Supply σ] {p q : Parser σ}, Parse.Turn p q → p.Gains q) ∧
    (∀ {σ : Type} [Supply σ] {p q : Parser σ}, p.Gains q → q.remaining < p.remaining) ∧
    (∀ {σ α : Type} [Supply σ] {m : ParseFrom σ α}, Parse.Routine m →
      ∀ p, Parse.Walked p (m p)) ∧
    (∀ {σ : Type} [Supply σ] (p : Parser σ),
      Parse.Walked p (Parse.program p) ∨ ∃ ts q, p.Passes ts q ∧ q.current.kind = .eof ∧
        ((∃ tree r, Parse.advance q = .ok () r ∧ Parse.program p = .ok tree r) ∨
          ∃ e r, Parse.advance q = .error e r ∧ Parse.program p = .error e r)) ∧
    ∀ source : String,
      (∀ p, Parser.start (.ofSource source) = .ok p → ∃ i, p.StartsAt source i) ∧
      (∀ (p : Parser) i, p.StartsAt source i →
        (∀ j, p.StartsAt source j → j = i) ∧
        (∀ q, p.Gains q → ∃ j, q.StartsAt source j ∧ i < j) ∧
        (∀ call : Parser.Call, ∃ j, (call.after p).StartsAt source j ∧ i ≤ j) ∧
        ∀ {α : Type} {m : Parse α}, Parse.Routine m →
          ∃ j, (Parser.leftBy m p).StartsAt source j ∧ i ≤ j) ∧
      (parseCounting (Cursor.ofSource source)).1 = parse source ∧
      (∀ ts, tokenize source = .ok ts →
        (parseCounting (Cursor.ofSource source)).2 ≤ ts.length + 1) ∧
      ∀ e, tokenize source = .error e →
        ∃ ks : List Token, ks.map .ok ++ [.error e] <+: (Cursor.ofSource source).outcomes ∧
          (parseCounting (Cursor.ofSource source)).2 ≤ ks.length + 1 := by
  refine ⟨fun h p a q => h.gains, Parse.Turn.gains, Parser.Gains.remaining_lt, Parse.Routine.walks,
    Parse.program_cases, ?_⟩
  intro source
  obtain ⟨us, hus, hle⟩ := exists_tokens_of_parseCounting source
  refine ⟨fun p => Parser.startsAt_of_start, ?_, parseCounting_fst _, ?_, ?_⟩
  · intro p i h
    refine ⟨fun j hj => hj.unique h, fun q => h.gains, h.after, ?_⟩
    intro α m hm
    exact h.leftBy_of_walked (hm.walks p)
  · intro ts hts
    rw [Cursor.outcomes, Reading.map_outcome_of_tokens hts] at hus
    have hlength := hus.length_le
    rw [List.length_map, List.length_map] at hlength
    omega
  · intro e he
    obtain ⟨ks, -, hks⟩ := Reading.exists_tokens_of_error he
    have hlength := length_le_of_prefix_outcomes hks hus
    exact ⟨ks, hks, by omega⟩

/-- A statement moves on, and a text that breaks off inside of a group is read to its end only. -/
theorem truncated_text_read_once :
    (∃ p q i j, Parser.start (.ofSource "س=!(2)") = .ok p ∧ p.Gains q ∧
      p.StartsAt "س=!(2)" i ∧ q.StartsAt "س=!(2)" j ∧ i < j) ∧
    (parseCounting (Cursor.ofSource "برنامج ب;\x7bس=!(2")).2 ≤ 10 + 1 := by
  obtain ⟨hconsuming, -, -, -, -, htext⟩ := parsing_consumes_and_ends
  constructor
  · let p : Parser :=
      { current := ⟨.identifier, "س", .text "س", ⟨1, 1⟩⟩
        source := { rest := "=!(2)".toList, offset := 1, line := 1, column := 2 } }
    have hp : Parser.start (.ofSource "س=!(2)") = .ok p := by decide +kernel
    obtain ⟨hstart, hplaces, -⟩ := htext "س=!(2)"
    obtain ⟨i, hi⟩ := hstart p hp
    have hok : (match Parse.statement p with | .ok _ _ => true | .error _ _ => false) = true := by
      decide +kernel
    cases hx : Parse.statement p with
    | error e q =>
      rw [hx] at hok
      cases hok
    | ok s q =>
      have hgains := hconsuming .statement p s q hx
      obtain ⟨j, hj, hlt⟩ := (hplaces p i hi).2.1 q hgains
      exact ⟨p, q, i, j, hp, hgains, hi, hj, hlt⟩
  · have hts : (tokenize "برنامج ب;\x7bس=!(2").map List.length = .ok 10 := by decide +kernel
    cases ht : tokenize "برنامج ب;\x7bس=!(2" with
    | error e =>
      rw [ht] at hts
      cases hts
    | ok ts =>
      rw [ht] at hts
      obtain ⟨-, -, -, hreadings, -⟩ := htext "برنامج ب;\x7bس=!(2"
      have hlength : ts.length = 10 := by simpa [Except.map] using hts
      rw [← hlength]
      exact hreadings ts ht

end Barnamaj
