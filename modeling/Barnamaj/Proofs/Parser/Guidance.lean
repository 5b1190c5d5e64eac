import Barnamaj.Proofs.Grammar.Language
import Barnamaj.Proofs.Parser.Completeness
import Barnamaj.Proofs.Parser.Soundness
import Mathlib.Order.CompletePartialOrder

/-!
# Parsers follow the grammar

A step of the parser follows a language `T` that stands in front of a language `K`. Where it
succeeds, it has taken a word of `T`, and no other way to split what comes is possible: whatever
still continues the text to a word of `T * K` continues it to a word of `K` from here on. Where it
fails for another reason than a limit, what it has taken starts a word of `T`, but with the token it
fails at there is no such word in front of any word of `K`.

The language of what follows is needed because a repetition ends where its operator does not come
next, so that this operator must not start what follows.
-/

open scoped Computability

namespace Barnamaj

namespace Parse

variable {α β : Type} {m : Parse α} {f : α → Parse β} {p q r : Parser}
  {kinds : List TokenKind} {K L T : Language Token}

/-! ### Following a language -/

/-- A grammar error that is no report of a limit. -/
def Misfit (e : GrammarError) : Prop :=
  e.fault ∉ [GrammarFault.nestedTooDeeply, .tooHigh]

/-- The step follows the words of `T` where those of `K` come next. -/
structure Follows (m : Parse α) (p : Parser) (T K : Language Token) : Prop where
  ok {a : α} {q : Parser} : m p = .ok a q → ∃ ts, p.Moves ts q ∧ ts ∈ T ∧
    ∀ us, ts ++ q.current :: us ∈ T * K → q.current :: us ∈ K
  error {e : GrammarError} {q : Parser} : m p = .error (.grammar e) q → Misfit e →
    ∃ ts, p.Moves ts q ∧ e.token = q.current ∧
      ((∃ w, w ∈ T) → ∃ t us, ts ++ t :: us ∈ T) ∧ ∀ us, ts ++ q.current :: us ∉ T * K

/-- What a step does depends on where it starts only. -/
lemma Follows.congr {n : Parse α} (h : Follows m p T K) (hn : n p = m p) : Follows n p T K := by
  constructor
  · intro a q ho
    exact h.ok (hn ▸ ho)
  · intro e q he
    exact h.error (hn ▸ he)

/-- A step that neither moves nor fails follows the empty word. -/
lemma follows_pure (a : α) : Follows (pure a) p 1 K := by
  constructor
  · intro b q h
    cases h
    exact ⟨[], .refl p, rfl, fun us hu => by simpa using hu⟩
  · intro e q h
    cases h

/-- A step that only reports a limit follows every language. -/
lemma follows_throw {operator : Token} :
    Follows (throw (.grammar ⟨.tooHigh, operator⟩) : Parse α) p T K := by
  constructor
  · intro a q ho
    cases ho
  · intro e q he hs
    cases he
    exact absurd (by simp) hs

lemma follows_checkHeight (operator : Token) (e : Expression) :
    Follows (checkHeight operator e) p 1 K := by
  rw [checkHeight]
  split
  · exact follows_pure e
  · exact follows_throw

/-- Of the words that start with the current token, only those of a part of the language need to
be followed. -/
lemma Follows.narrow (h : Follows m p T K) (hle : T ≤ L) (hne : ∃ w, w ∈ T)
    (hsel : ∀ us, p.current :: us ∈ L * K → p.current :: us ∈ T * K) : Follows m p L K := by
  have hback : ∀ {ts q} us, p.Moves ts q → ts ++ q.current :: us ∈ L * K →
      ts ++ q.current :: us ∈ T * K := by
    intro ts q us hm hu
    obtain ⟨vs, heq⟩ := hm.exists_eq_cons us
    rw [heq] at hu ⊢
    exact hsel vs hu
  constructor
  · intro a q ho
    obtain ⟨ts, hm, ht, hrest⟩ := h.ok ho
    exact ⟨ts, hm, hle ht, fun us hu => hrest us (hback us hm hu)⟩
  · intro e q he hs
    obtain ⟨ts, hm, htok, hviable, hstuck⟩ := h.error he hs
    obtain ⟨t, us, hw⟩ := hviable hne
    exact ⟨ts, hm, htok, fun _ => ⟨t, us, hle hw⟩, fun us hu => hstuck us (hback us hm hu)⟩

/-- A sequence follows the concatenation. -/
lemma Follows.bind (hm : Follows m p T (L * K))
    (hf : ∀ a r, m p = .ok a r → Follows (f a) r L K) : Follows (m >>= f) p (T * L) K := by
  constructor
  · intro b q ho
    obtain ⟨a, r, hr, hq⟩ := bind_eq_ok ho
    obtain ⟨ts, hmt, ht, hrest⟩ := hm.ok hr
    obtain ⟨us, hmu, hu, hrest'⟩ := (hf a r hr).ok hq
    refine ⟨ts ++ us, hmt.trans hmu, Language.append_mem_mul ht hu, fun vs hv => ?_⟩
    -- a word of `T * (L * K)` can only be split where the first step has stopped
    obtain ⟨ws, heq⟩ := hmu.exists_eq_cons vs
    rw [List.append_assoc, mul_assoc, heq] at hv
    have hw := hrest ws hv
    rw [← heq] at hw
    exact hrest' vs hw
  · intro e q he hs
    rcases bind_eq_error he with he | ⟨a, r, hr, he⟩
    · obtain ⟨ts, hmt, htok, hviable, hstuck⟩ := hm.error he hs
      refine ⟨ts, hmt, htok, ?_, fun us hu => hstuck us (by rwa [mul_assoc] at hu)⟩
      rintro ⟨w, v, hv, v', hv', -⟩
      obtain ⟨t, us, hw⟩ := hviable ⟨v, hv⟩
      refine ⟨t, us ++ v', ?_⟩
      have := Language.append_mem_mul hw hv'
      simpa using this
    · obtain ⟨ts, hmt, ht, hrest⟩ := hm.ok hr
      obtain ⟨us, hmu, htok, hviable, hstuck⟩ := (hf a r hr).error he hs
      refine ⟨ts ++ us, hmt.trans hmu, htok, ?_, fun vs hv => ?_⟩
      · rintro ⟨w, v, -, v', hv', -⟩
        obtain ⟨t, vs, hw⟩ := hviable ⟨v', hv'⟩
        refine ⟨t, vs, ?_⟩
        rw [List.append_assoc]
        exact Language.append_mem_mul ht hw
      · obtain ⟨ws, heq⟩ := hmu.exists_eq_cons vs
        rw [List.append_assoc, mul_assoc, heq] at hv
        have hw := hrest ws hv
        rw [← heq] at hw
        exact hstuck vs hw

/-- A step that is done after another without moving does not count. -/
lemma Follows.bind_still (hm : Follows m p T K)
    (hf : ∀ a r, Follows (f a) r 1 K) : Follows (m >>= f) p T K := by
  have h : Follows (m >>= f) p (T * 1) K := .bind (by rwa [one_mul]) fun a r _ => hf a r
  rwa [mul_one] at h

/-! ### Single tokens -/

/-- A step that takes the current token and goes on as another step. -/
lemma Follows.token (hk : p.current.kind ∈ kinds)
    (hok : ∀ r, advance p = .ok () r → ∃ n : Parse α, m p = n r ∧ Follows n r T K)
    (herror : ∀ l r, advance p = .error (.lexical l) r → ∃ q, m p = .error (.lexical l) q) :
    Follows m p (oneOf kinds * T) K := by
  cases ha : advance p with
  | error e r =>
    obtain ⟨l, rfl⟩ := advance_eq_error ha
    obtain ⟨s, hs⟩ := herror l r ha
    constructor
    · intro a q ho
      rw [hs] at ho
      cases ho
    · intro e q he
      rw [hs] at he
      cases he
  | ok u r =>
    obtain ⟨n, hn, h⟩ := hok r ha
    constructor
    · intro a q ho
      rw [hn] at ho
      obtain ⟨ts, hm, ht, hrest⟩ := h.ok ho
      refine ⟨p.current :: ts, .step ha hm, cons_mem_oneOf_mul_iff.mpr ⟨hk, ht⟩, fun us hu => ?_⟩
      rw [mul_assoc, List.cons_append] at hu
      exact hrest us (cons_mem_oneOf_mul_iff.mp hu).2
    · intro e q he hs
      rw [hn] at he
      obtain ⟨ts, hm, htok, hviable, hstuck⟩ := h.error he hs
      refine ⟨p.current :: ts, .step ha hm, htok, ?_, fun us hu => ?_⟩
      · rintro ⟨w, hw⟩
        obtain ⟨t, us, -, -, hu⟩ := mem_oneOf_mul_iff.mp hw
        obtain ⟨t, us, hw⟩ := hviable ⟨us, hu⟩
        exact ⟨t, us, cons_mem_oneOf_mul_iff.mpr ⟨hk, hw⟩⟩
      · rw [mul_assoc, List.cons_append] at hu
        exact hstuck us (cons_mem_oneOf_mul_iff.mp hu).2

/-- A step that takes the current token if its kind is among those given, and else finds nothing. -/
structure Tests (m : Parse (Option α)) (kinds : List TokenKind) : Prop where
  of_mem {p : Parser} : p.current.kind ∈ kinds →
    (∀ q, advance p = .ok () q → ∃ a, m p = .ok (some a) q) ∧
      ∀ l q, advance p = .error (.lexical l) q → ∃ r, m p = .error (.lexical l) r
  of_notMem {p : Parser} : p.current.kind ∉ kinds → m p = .ok none p

lemma tests_accept (kinds : List TokenKind) : Tests (accept kinds) kinds := by
  refine ⟨fun {p} hk => ⟨fun q ha => ⟨_, accept_of_mem hk ha⟩, fun l q ha => ⟨q, ?_⟩⟩,
    fun {p} hk => accept_of_notMem hk⟩
  have hc : current p = .ok p.current p := rfl
  rw [accept, bind_of_ok hc, if_pos hk, bind_of_error ha]

lemma tests_atom : Tests atom TokenKind.atom := by
  refine ⟨fun {p} hk => ?_, fun {p} hk => ?_⟩
  · by_cases hl : p.current.kind ∈ TokenKind.literal
    · obtain ⟨hok, herror⟩ := (tests_accept TokenKind.literal).of_mem hl
      constructor
      · intro q ha
        obtain ⟨t, ht⟩ := hok q ha
        exact ⟨_, bind_of_ok ht⟩
      · intro l q ha
        obtain ⟨r, hr⟩ := herror l q ha
        exact ⟨r, bind_of_error hr⟩
    · have hi : p.current.kind ∈ [TokenKind.identifier] :=
        List.mem_singleton.mpr ((List.mem_cons.mp hk).resolve_right hl)
      obtain ⟨hok, herror⟩ := (tests_accept [.identifier]).of_mem hi
      constructor
      · intro q ha
        obtain ⟨t, ht⟩ := hok q ha
        exact ⟨_, (bind_of_ok (accept_of_notMem hl)).trans (bind_of_ok ht)⟩
      · intro l q ha
        obtain ⟨r, hr⟩ := herror l q ha
        exact ⟨r, (bind_of_ok (accept_of_notMem hl)).trans (bind_of_error hr)⟩
  · simp only [TokenKind.atom, List.mem_cons, not_or] at hk
    obtain ⟨hi, hl⟩ := hk
    exact (bind_of_ok (accept_of_notMem hl)).trans
      (bind_of_ok (accept_of_notMem (by simpa using hi)))

section Choice

variable {m : Parse (Option α)} {f : Option α → Parse β}

/-- The way on from a token that was taken. -/
lemma Tests.follows_of_mem (hm : Tests m kinds) (hk : p.current.kind ∈ kinds)
    (hf : ∀ a r, m p = .ok (some a) r → Follows (f (some a)) r T K) :
    Follows (m >>= f) p (oneOf kinds * T) K := by
  obtain ⟨hok, herror⟩ := hm.of_mem hk
  refine .token hk (fun r ha => ?_) (fun l r ha => ?_)
  · obtain ⟨a, h⟩ := hok r ha
    exact ⟨f (some a), bind_of_ok h, hf a r h⟩
  · obtain ⟨q, h⟩ := herror l r ha
    exact ⟨q, bind_of_error h⟩

/-- A choice by the current token: what the other way follows must not start with such a token. -/
lemma Tests.choice (hm : Tests m kinds)
    (hsome : ∀ a r, m p = .ok (some a) r → Follows (f (some a)) r T K)
    (hnone : p.current.kind ∉ kinds → Follows (f none) p L K) (hk : kinds ≠ [])
    (hT : ∃ w, w ∈ T) (hL : ∃ w, w ∈ L) (hav : Avoids (L * K) kinds) :
    Follows (m >>= f) p (oneOf kinds * T + L) K := by
  by_cases hp : p.current.kind ∈ kinds
  · refine (hm.follows_of_mem hp hsome).narrow le_sup_left
      (exists_mem_mul (exists_mem_oneOf hk) hT) fun us hu => ?_
    rw [add_mul] at hu
    exact hu.resolve_right fun hu => hav _ us hu hp
  · refine ((hnone hp).congr (bind_of_ok (hm.of_notMem hp))).narrow le_sup_right hL
      fun us hu => ?_
    rw [add_mul, mul_assoc] at hu
    exact hu.resolve_left fun hu => hp (cons_mem_oneOf_mul_iff.mp hu).1

/-- The token must be among those given, or the step fails at it. -/
lemma Tests.only (hm : Tests m kinds) (hsome : ∀ a r, Follows (f (some a)) r T K)
    (hok : ∀ b q, f none p ≠ .ok b q)
    (herror : ∀ e q, f none p = .error (.grammar e) q → Misfit e → q = p ∧ e.token = p.current) :
    Follows (m >>= f) p (oneOf kinds * T) K := by
  by_cases hp : p.current.kind ∈ kinds
  · exact hm.follows_of_mem hp fun a r _ => hsome a r
  · have hrun : (m >>= f) p = f none p := bind_of_ok (hm.of_notMem hp)
    refine ⟨fun {b q} ho => absurd (hrun ▸ ho) (hok b q), fun {e q} he hs => ?_⟩
    obtain ⟨rfl, htok⟩ := herror e q (hrun ▸ he) hs
    refine ⟨[], .refl q, htok, ?_, fun us hu => ?_⟩
    · rintro ⟨w, hw⟩
      obtain ⟨t, us, rfl, -, -⟩ := mem_oneOf_mul_iff.mp hw
      exact ⟨t, us, hw⟩
    · rw [mul_assoc, List.nil_append] at hu
      exact hp (cons_mem_oneOf_mul_iff.mp hu).1

end Choice

lemma follows_accept (hK : Avoids K kinds) (hk : kinds ≠ []) :
    Follows (accept kinds) p (oneOf kinds + 1) K := by
  have h : Follows (accept kinds >>= pure) p (oneOf kinds * 1 + 1) K :=
    (tests_accept kinds).choice (fun t r _ => follows_pure _) (fun _ => follows_pure _) hk
      ⟨[], rfl⟩ ⟨[], rfl⟩ (by rwa [one_mul])
  rwa [mul_one, bind_pure] at h

lemma follows_expect (place : Expectation) : Follows (expect place) p (oneOf [place.kind]) K := by
  rw [← mul_one (oneOf _)]
  refine (tests_accept _).only (fun t r => follows_pure t) ?_ ?_
  · intro t q h
    cases h
  · intro e q h _
    cases h
    exact ⟨rfl, rfl⟩

/-! ### Expressions -/

/-- A chain of operators follows a repetition. -/
lemma follows_chain {operand : Parse Expression} {left : Expression}
    (ho : ∀ p, Follows operand p T ((oneOf kinds * T)∗ * K)) (hk : kinds ≠ [])
    (hT : ∃ w, w ∈ T) (hK : Avoids K kinds) :
    Follows (chain kinds operand left) p (oneOf kinds * T)∗ K := by
  induction hn : maxHeight - left.height using Nat.strongRecOn generalizing left p with
  | _ n ih =>
    rw [chain, ← Language.one_add_self_mul_kstar_eq_kstar, add_comm, mul_assoc]
    refine (tests_accept kinds).choice (fun operator r _ => ?_) (fun _ => follows_pure left) hk
      (exists_mem_mul hT ⟨[], Language.nil_mem_kstar _⟩) ⟨[], rfl⟩ (by rwa [one_mul])
    refine (ho r).bind fun right s _ => ?_
    split
    · next h =>
      refine ih _ ?_ rfl
      simp only [Expression.height] at h ⊢
      omega
    · exact follows_throw

lemma follows_term {factor : Parse Expression}
    (hf : ∀ p K, Follows factor p Level.factor.words K)
    (hK : Avoids K TokenKind.multiplicative) : Follows (term factor) p Level.term.words K := by
  rw [Level.words_eq .term]
  refine (hf p _).bind fun first r _ => ?_
  exact follows_chain (fun p => hf p _) (List.cons_ne_nil _ _) (Level.exists_mem_words _) hK

lemma follows_simple {factor : Parse Expression}
    (hf : ∀ p K, Follows factor p Level.factor.words K) (hm : Avoids K TokenKind.multiplicative)
    (ha : Avoids K TokenKind.additive) : Follows (simple factor) p Level.simple.words K := by
  -- in front of a further operand, and of what follows, a term ends
  have hend : Avoids ((oneOf TokenKind.additive * Level.term.words)∗ * K)
      TokenKind.multiplicative :=
    hm.kstar_mul TokenKind.notMem_multiplicative_of_additive _
  rw [Level.words_eq .simple, Level.rule, mul_assoc]
  refine (follows_accept ?_ (List.cons_ne_nil _ _)).bind fun sign r _ => ?_
  · rw [mul_assoc]
    exact avoids_term_mul TokenKind.notMem_factorStart_of_additive
  refine (follows_term hf hend).bind fun first s _ => ?_
  have hsigned : Follows (underSign sign first) s 1
      ((oneOf TokenKind.additive * Level.term.words)∗ * K) := by
    cases sign with
    | none => exact follows_pure first
    | some operator => exact follows_checkHeight operator _
  rw [← one_mul (_ ∗)]
  refine hsigned.bind fun signed t _ => ?_
  exact follows_chain (fun p => follows_term hf hend) (List.cons_ne_nil _ _)
    (Level.exists_mem_words _) ha

lemma follows_expression {factor : Parse Expression}
    (hf : ∀ p K, Follows factor p Level.factor.words K) (hK : Avoids K TokenKind.joining) :
    Follows (expression factor) p Level.expression.words K := by
  have hm : Avoids K TokenKind.multiplicative := fun t us h hc =>
    hK t us h (by simp [TokenKind.joining, hc])
  have ha : Avoids K TokenKind.additive := fun t us h hc =>
    hK t us h (by simp [TokenKind.joining, hc])
  have hr : Avoids K TokenKind.relational := fun t us h hc =>
    hK t us h (by simp [TokenKind.joining, hc])
  rw [Level.words_eq .expression, Level.rule]
  refine Follows.bind (follows_simple hf ?_ ?_) fun left r _ => ?_
  · rw [add_mul, one_mul, mul_assoc]
    exact (avoids_oneOf_mul TokenKind.notMem_multiplicative_of_relational _).add hm
  · rw [add_mul, one_mul, mul_assoc]
    exact (avoids_oneOf_mul TokenKind.notMem_additive_of_relational _).add ha
  · refine (tests_accept _).choice (fun operator s _ => ?_) (fun _ => follows_pure left)
      (List.cons_ne_nil _ _) (Level.exists_mem_words _) ⟨[], rfl⟩ (by rwa [one_mul])
    exact (follows_simple hf hm ha).bind_still fun right t => follows_checkHeight operator _

/-- A refusal that is no report of a limit leaves the parser at a token that opens no level. -/
lemma refuse_eq_error {e : GrammarError} (h : refuse p = .error (.grammar e) q)
    (hs : Misfit e) : q = p ∧ e.token = p.current ∧ p.current.kind ∉ [TokenKind.lparen, .not] := by
  have hc : current p = .ok p.current p := rfl
  rw [refuse, bind_of_ok hc] at h
  split at h
  · cases h
    exact absurd (by simp) hs
  · next hk =>
    cases h
    exact ⟨rfl, rfl, hk⟩

lemma follows_refuse : Follows refuse p openingWords K := by
  refine ⟨fun {a q} ho => absurd ho refuse_ne_ok, fun {e q} he hs => ?_⟩
  obtain ⟨rfl, htok, hk⟩ := refuse_eq_error he hs
  exact ⟨[], .refl q, htok, fun _ => exists_mem_openingWords,
    fun us hu => hk (kind_mem_of_openingWords_mul hu)⟩

/-- An atom is a factor; where there is none, a longer factor remains. -/
lemma follows_atom_bind {f : Option Expression → Parse Expression}
    (hsome : ∀ e, f (some e) = pure e) (hnone : Follows (f none) p openingWords K) :
    Follows (atom >>= f) p Level.factor.words K := by
  rw [Level.words_eq .factor, Level.rule, ← mul_one (oneOf TokenKind.atom)]
  obtain ⟨t, us, hw⟩ := exists_mem_openingWords
  refine tests_atom.choice (fun e r _ => ?_) (fun _ => hnone) (List.cons_ne_nil _ _) ⟨[], rfl⟩
    ⟨_, hw⟩ ?_
  · rw [hsome]
    exact follows_pure e
  · intro t us h
    exact TokenKind.notMem_atom_of_opening _ (kind_mem_of_openingWords_mul h)

/-- A factor follows its language, whatever comes next and however many levels are left. -/
lemma follows_factor (levels : Nat) (p : Parser) (K : Language Token) :
    Follows (factor levels) p Level.factor.words K := by
  induction levels generalizing p K with
  | zero => exact follows_atom_bind (fun _ => rfl) follows_refuse
  | succ levels ih =>
    refine follows_atom_bind (fun _ => rfl) ?_
    refine (tests_accept _).choice (fun operator r _ => ?_) (fun _ => ?_) (List.cons_ne_nil _ _)
      (Level.exists_mem_words _) ?_ ?_
    · exact (ih r K).bind_still fun operand s => follows_checkHeight operator _
    · refine (tests_accept _).only (fun l r => ?_) (fun e q => refuse_ne_ok) (fun e q he hs => ?_)
      · refine (follows_expression ih ?_).bind fun e s _ => ?_
        · exact avoids_oneOf_mul (by decide) K
        · exact (follows_expect _).bind_still fun _ t => follows_pure e
      · obtain ⟨hq, htok, -⟩ := refuse_eq_error he hs
        exact ⟨hq, htok⟩
    · apply exists_mem_singleton_mul
      exact exists_mem_mul (Level.exists_mem_words _) (exists_mem_oneOf (List.cons_ne_nil _ _))
    · rw [mul_assoc]
      exact avoids_oneOf_mul (by decide) _

lemma follows_wholeExpression (hK : Avoids K TokenKind.joining) :
    Follows wholeExpression p Level.expression.words K :=
  (follows_expression (follows_factor (maxNesting - p.depth)) hK).congr rfl

/-! ### Statements -/

lemma follows_printItem : Follows printItem p itemWords K := by
  rw [itemWords, ← mul_one (oneOf [.stringLiteral, .charLiteral])]
  refine (tests_accept _).choice (fun t r _ => follows_pure _) (fun _ => ?_)
    (List.cons_ne_nil _ _) ⟨[], rfl⟩ (exists_mem_oneOf (List.cons_ne_nil _ _)) ?_
  · exact (follows_expect .variableName).bind_still fun t r => follows_pure _
  · exact avoids_oneOf_mul (by decide) K

/-- One turn of the loop over items. -/
lemma collect_nextItem (p : Parser) :
    collect nextItem consumesSome_nextItem p = (do
      match ← accept [.comma] with
      | none => return []
      | some _ =>
        let i ← printItem
        return i :: (← collect nextItem consumesSome_nextItem)) p := by
  match ha : accept [.comma] p with
  | .error e q =>
    rw [bind_of_error ha]
    exact collect_of_error (bind_of_error ha)
  | .ok none q =>
    rw [bind_of_ok ha]
    exact collect_of_none (bind_of_ok ha)
  | .ok (some t) q =>
    rw [bind_of_ok ha]
    match hi : printItem q with
    | .error e r =>
      have hnext : nextItem p = .error e r := (bind_of_ok ha).trans (bind_of_error hi)
      refine (collect_of_error hnext).trans (Eq.symm ?_)
      exact bind_of_error hi
    | .ok i r =>
      have hnext : nextItem p = .ok (some i) r := (bind_of_ok ha).trans (bind_of_ok hi)
      refine (collect_of_some hnext).trans (Eq.symm ?_)
      exact bind_of_ok hi

lemma follows_items (hK : Avoids K [.comma]) :
    Follows (collect nextItem consumesSome_nextItem) p itemsWords K := by
  -- a comma and an item leave less to read
  induction hn : p.remaining using Nat.strongRecOn generalizing p with
  | _ n ih =>
    refine Follows.congr ?_ (collect_nextItem p)
    rw [itemsWords_eq]
    refine (tests_accept _).choice (fun t r hr => ?_) (fun _ => follows_pure [])
      (List.cons_ne_nil _ _) (exists_mem_mul exists_mem_itemWords ⟨[], nil_mem_itemsWords⟩)
      ⟨[], rfl⟩ (by rwa [one_mul])
    refine follows_printItem.bind fun i s hs => ?_
    have hlt : s.remaining < n := by
      have hr' := consumesSome_accept (by decide) p t r hr
      have hs' := consumes_printItem r i s hs
      omega
    exact (ih _ hlt rfl).bind_still fun is t => follows_pure _

/-- A statement ends where no operator comes next. -/
lemma follows_statement (hK : Avoids K TokenKind.joining) :
    Follows statement p statementWords K := by
  have hread := exists_mem_singleton_mul .readKw exists_mem_readWords
  refine (tests_accept _).choice (fun target r _ => ?_) (fun _ => ?_) (List.cons_ne_nil _ _)
    exists_mem_assignmentWords ?_ ?_
  · refine (follows_expect .assignmentSign).bind fun _ s _ => ?_
    exact (follows_wholeExpression hK).bind_still fun e t => follows_pure _
  · refine (tests_accept _).choice (fun keyword r _ => ?_) (fun _ => ?_) (List.cons_ne_nil _ _)
      exists_mem_printWords hread ?_
    · refine (follows_expect .printOpening).bind fun _ s _ => ?_
      refine follows_printItem.bind fun i t _ => ?_
      refine (follows_items (avoids_oneOf_mul (by decide) K)).bind fun is u _ => ?_
      exact (follows_expect .printClosing).bind_still fun _ v => follows_pure _
    · refine (tests_accept _).only (fun keyword r => ?_) ?_ ?_
      · refine (follows_expect .readOpening).bind fun _ s _ => ?_
        refine (follows_expect .variableName).bind fun target t _ => ?_
        exact (follows_expect .readClosing).bind_still fun _ v => follows_pure _
      · intro s q h
        cases h
      · intro e q h _
        cases h
        exact ⟨rfl, rfl⟩
    · rw [mul_assoc]
      exact avoids_oneOf_mul (by decide) _
  · obtain ⟨w, hw⟩ := hread
    exact ⟨w, Or.inr hw⟩
  · rw [add_mul, mul_assoc, mul_assoc]
    exact (avoids_oneOf_mul (by decide) _).add (avoids_oneOf_mul (by decide) _)

/-! ### Blocks and programs -/

/-- Behind a statement, the block ends or goes on with a semicolon. -/
lemma follows_separator {m : Parse α} (hK : ∀ t us, t :: us ∈ K → t.kind = .rbrace)
    (hend : p.current.kind = .rbrace → Follows m p 1 K)
    (hnext : ∀ q, separator p = .ok () q → p.current.kind = .semicolon → Follows m q L K)
    (hL : ∃ w, w ∈ L) :
    Follows (do separator; m) p (1 + oneOf [.semicolon] * L) K := by
  by_cases hb : p.current.kind = .rbrace
  · refine ((hend hb).congr (bind_of_ok (separator_of_rbrace hb))).narrow le_sup_left ⟨[], rfl⟩
      fun us hu => ?_
    rw [add_mul, mul_assoc] at hu
    refine hu.resolve_right fun hu => ?_
    simpa [hb] using (cons_mem_oneOf_mul_iff.mp hu).1
  by_cases hc : p.current.kind = .semicolon
  · have hk : p.current.kind ∈ [TokenKind.semicolon] := List.mem_singleton.mpr hc
    refine Follows.narrow ?_ le_sup_right (exists_mem_singleton_mul _ hL) fun us hu => ?_
    · refine .token hk (fun r ha => ?_) (fun l r ha => ?_)
      · have hs := separator_of_semicolon hc ha
        exact ⟨m, bind_of_ok hs, hnext r hs hc⟩
      · obtain ⟨s, hs⟩ := ((tests_accept _).of_mem hk).2 l r ha
        exact ⟨s, bind_of_error (bind_of_error hs)⟩
    · rw [add_mul, one_mul] at hu
      exact hu.resolve_left fun hu => hb (hK _ us hu)
  · have hstuck : ∀ us, p.current :: us ∉ (1 + oneOf [.semicolon] * L) * K := by
      intro us hu
      rw [add_mul, one_mul, mul_assoc] at hu
      rcases hu with hu | hu
      · exact hb (hK _ us hu)
      · exact hc (List.mem_singleton.mp (cons_mem_oneOf_mul_iff.mp hu).1)
    have hrun := bind_of_error (f := fun _ => m) (separator_of_ne hc hb)
    constructor
    · intro a q ho
      rw [hrun] at ho
      cases ho
    · intro e q he hs
      rw [hrun] at he
      cases he
      obtain ⟨w, hw⟩ := hL
      refine ⟨[], .refl p, rfl, fun _ => ?_, hstuck⟩
      exact ⟨⟨.semicolon, "", .absent, ⟨1, 1⟩⟩, w,
        Or.inr (cons_mem_oneOf_mul_iff.mpr ⟨by simp, hw⟩)⟩

/-- The loop over statements ends at the brace that closes the block, and at the end. -/
lemma collect_nextStatement_of_mem (hk : p.current.kind ∈ [TokenKind.rbrace, .eof]) :
    collect nextStatement consumesSome_nextStatement p = .ok [] p :=
  collect_of_none (nextStatement_of_mem hk)

/-- One turn of the loop over statements. -/
lemma collect_nextStatement (hk : p.current.kind ∉ [TokenKind.rbrace, .eof]) :
    collect nextStatement consumesSome_nextStatement p = (do
      let s ← statement
      separator
      return s :: (← collect nextStatement consumesSome_nextStatement)) p := by
  have hrun := nextStatement_of_notMem hk
  match hs : statement p with
  | .error e q =>
    rw [bind_of_error hs] at hrun ⊢
    exact collect_of_error hrun
  | .ok s q =>
    rw [bind_of_ok hs] at hrun ⊢
    match hsep : separator q with
    | .error e r =>
      rw [bind_of_error hsep] at hrun ⊢
      exact collect_of_error hrun
    | .ok u r =>
      rw [bind_of_ok hsep] at hrun ⊢
      exact collect_of_some hrun

/-- The inside of a block is followed up to the brace that closes it. -/
lemma follows_body (hK : ∀ t us, t :: us ∈ K → t.kind = .rbrace) :
    Follows (collect nextStatement consumesSome_nextStatement) p bodyWords K := by
  -- a statement and its separator leave less to read
  induction hn : p.remaining using Nat.strongRecOn generalizing p with
  | _ n ih =>
    by_cases hk : p.current.kind ∈ [TokenKind.rbrace, .eof]
    · refine ((follows_pure []).congr (collect_nextStatement_of_mem hk)).narrow ?_ ⟨[], rfl⟩
        fun us hu => ?_
      · rw [bodyWords_eq]
        exact le_sup_left
      · rw [bodyWords_eq, add_mul, mul_assoc] at hu
        refine hu.resolve_right fun hu => ?_
        exact avoids_statement_mul (by decide) _ us hu hk
    · have hnil : [] ∈ bodyWords := ⟨0, [], .nil⟩
      have hrest : ∃ w, w ∈ (1 + oneOf [.semicolon] * bodyWords : Language Token) := ⟨[], Or.inl rfl⟩
      refine Follows.narrow (Follows.congr ?_ (collect_nextStatement hk)) ?_
        (exists_mem_mul exists_mem_statementWords hrest) fun us hu => ?_
      · refine (follows_statement ?_).bind fun s r hs => ?_
        · rw [add_mul, one_mul, mul_assoc]
          refine Avoids.add ?_ (avoids_oneOf_mul (by decide) _)
          intro t us h
          rw [hK t us h]
          decide
        · refine follows_separator hK (fun hb => ?_) (fun q hsep hc => ?_) ⟨[], hnil⟩
          · have hrun := collect_nextStatement_of_mem (p := r) (by simp [hb])
            exact ((follows_pure []).congr hrun).bind_still fun rest t => follows_pure _
          · have hlt : q.remaining < n := by
              have hs' := consumes_statement p s r hs
              have hsep' := keeps_separator r () q hsep
              omega
            exact (ih _ hlt rfl).bind_still fun rest t => follows_pure _
      · conv_rhs => rw [bodyWords_eq]
        exact le_sup_right
      · rw [bodyWords_eq, add_mul, one_mul] at hu
        refine hu.resolve_left fun hu => hk ?_
        rw [hK _ us hu]
        simp

lemma follows_program : Follows program p programWords 1 := by
  refine (follows_expect .programStart).bind fun keyword _ _ => ?_
  refine (follows_expect .programName).bind fun name _ _ => ?_
  refine (follows_expect .programNameEnd).bind fun _ _ _ => ?_
  refine (follows_expect .blockStart).bind fun brace _ _ => ?_
  refine (follows_body ?_).bind fun statements _ _ => ?_
  · intro t us h
    rw [mul_assoc] at h
    exact List.mem_singleton.mp (cons_mem_oneOf_mul_iff.mp h).1
  refine (follows_expect .blockEnd).bind fun _ _ _ => ?_
  refine (follows_expect .programEnd).bind fun _ _ _ => ?_
  exact (follows_expect .endOfFile).bind_still fun _ _ => follows_pure _

end Parse

end Barnamaj
