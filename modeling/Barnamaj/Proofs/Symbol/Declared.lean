import Barnamaj.Proofs.Token.Spelling
import Barnamaj.Symbol.Declarations

/-!
# Declared names

Which names are declared once the global scope has taken up all declarations: the names of the
declarations, and those of the built-in types that were there before. No name of a source text is
one of the latter, because they are keywords or have a blank in them.
-/

namespace Barnamaj

variable {name : String}

/-! ### Scopes -/

lemma Scope.contains_iff {s : Scope} :
    s.contains name = true ↔ name ∈ s.symbols.map Symbol.name := by
  simp [contains, lookupLocal, List.find?_isSome]

lemma Scope.define_of_contains {s : Scope} {symbol : Symbol} (h : s.contains symbol.name = true) :
    s.define symbol = .error (.duplicate symbol.name) := by
  rw [define, dif_pos h]

/-- Defining a symbol puts it behind the others. -/
lemma Scope.define_of_not_contains {s : Scope} {symbol : Symbol}
    (h : ¬ s.contains symbol.name = true) :
    ∃ s', s.define symbol = .ok s' ∧ s'.level = s.level ∧ s'.symbols = s.symbols ++ [symbol] := by
  rw [define, dif_neg h]
  exact ⟨_, rfl, rfl, rfl⟩

/-- A definition adds its name to those of the scope, and fails only for a name that is there. -/
lemma Scope.define_cases (s : Scope) (symbol : Symbol) :
    (s.contains symbol.name = true ∧ s.define symbol = .error (.duplicate symbol.name)) ∨
      ∃ s', s.define symbol = .ok s' ∧
        ∀ name, s'.contains name = true ↔ s.contains name = true ∨ name = symbol.name := by
  by_cases h : s.contains symbol.name = true
  · exact Or.inl ⟨h, define_of_contains h⟩
  · obtain ⟨s', hd, -, hsymbols⟩ := define_of_not_contains h
    refine Or.inr ⟨s', hd, fun name => ?_⟩
    simp only [contains_iff, hsymbols, List.map_append, List.map_cons, List.map_nil,
      List.mem_append, List.mem_singleton]

namespace Environment

variable {env : Environment}

lemma declares_iff : env.declares name = true ↔
    env.scope.contains name = true ∨ ∃ s ∈ env.outer, s.contains name = true := by
  simp [declares, lookup, Scope.lookupIn, Scope.contains, List.findSome?_isSome_iff]

/-- After a declaration its name is declared, and all others are as before. -/
lemma declare_cases (env : Environment) (name : String) (type : DataType) :
    (env.declares name = true ∧ env.declare name type = .error (.duplicate name)) ∨
      ∃ next, env.declare name type = .ok next ∧
        ∀ x, next.declares x = true ↔ env.declares x = true ∨ x = name := by
  rcases env.scope.define_cases (env.variableSymbol name type) with ⟨hc, hd⟩ | ⟨s, hd, hs⟩
  · refine Or.inl ⟨declares_iff.mpr (Or.inl hc), ?_⟩
    rw [declare, hd]
    rfl
  · refine Or.inr ⟨{ env with scope := s }, by rw [declare, hd]; rfl, fun x => ?_⟩
    rw [declares_iff, declares_iff]
    simp only [hs, variableSymbol]
    exact or_right_comm

lemma declare_of_contains (h : env.scope.contains name = true) (type : DataType) :
    env.declare name type = .error (.duplicate name) := by
  rw [declare, Scope.define_of_contains h]
  rfl

/-- Declaring a variable changes the innermost scope alone, and puts the variable behind the other
symbols there. -/
lemma declare_of_not_contains (h : ¬ env.scope.contains name = true) (type : DataType) :
    ∃ s, env.declare name type = .ok { env with scope := s } ∧ s.level = env.scope.level ∧
      s.symbols = env.scope.symbols ++ [env.variableSymbol name type] := by
  have hnew : ¬ env.scope.contains (env.variableSymbol name type).name = true := h
  obtain ⟨s, hd, hlevel, hsymbols⟩ := Scope.define_of_not_contains hnew
  exact ⟨s, by rw [declare, hd]; rfl, hlevel, hsymbols⟩

lemma declares_initial : initial.declares name = true ↔ name ∈ DataType.builtin.map Prod.fst := by
  rw [declares_iff, Scope.contains_iff]
  simp [initial, globalScope]

end Environment

/-! ### Declarations -/

namespace Declarations

variable {d e : Declarations} {env : Environment}

/-- The names that are declared. -/
def keys (d : Declarations) : List String := d.map Prod.fst

lemma keys_cons (entry : String × DataType) (d : Declarations) :
    keys (entry :: d) = entry.1 :: d.keys := rfl

lemma keys_insert_of_mem (h : name ∈ d.keys) (type : DataType) :
    (d.insert name type).keys = d.keys := by
  induction d with
  | nil => cases h
  | cons entry d ih =>
    obtain ⟨key, old⟩ := entry
    rw [keys_cons, List.mem_cons] at h
    rw [insert]
    split
    · rfl
    · next hne =>
      have hrest := h.resolve_left fun heq => hne heq.symm
      rw [keys_cons, keys_cons, ih hrest]

lemma keys_insert_of_notMem (h : name ∉ d.keys) (type : DataType) :
    (d.insert name type).keys = d.keys ++ [name] := by
  induction d with
  | nil => rfl
  | cons entry d ih =>
    obtain ⟨key, old⟩ := entry
    rw [keys_cons, List.mem_cons, not_or] at h
    rw [insert, if_neg fun heq => h.1 heq.symm, keys_cons, keys_cons, ih h.2, List.cons_append]

/-- Merging two maps keeps the names of the first in their places, and adds the names that are new
behind them. -/
lemma keys_update (d : Declarations) (h : e.keys.Nodup) :
    (d.update e).keys = d.keys ++ e.keys.filter (· ∉ d.keys) := by
  induction e generalizing d with
  | nil => simp [update, keys]
  | cons entry e ih =>
    obtain ⟨name, type⟩ := entry
    obtain ⟨hname, hrest⟩ := List.nodup_cons.mp h
    have hstep : (d.update ((name, type) :: e)).keys = ((d.insert name type).update e).keys := rfl
    rw [hstep, ih _ hrest, keys_cons]
    by_cases hmem : name ∈ d.keys
    · rw [keys_insert_of_mem hmem, List.filter_cons_of_neg (by simpa using hmem)]
    · -- the name does not come again, so it does not matter that it is not new any more
      have hfilter : (keys e).filter (· ∉ d.keys ++ [name]) = (keys e).filter (· ∉ d.keys) := by
        refine List.filter_congr fun x hx => ?_
        have hne : x ≠ name := ne_of_mem_of_not_mem hx hname
        simp [hne]
      rw [keys_insert_of_notMem hmem, List.filter_cons_of_pos (by simpa using hmem),
        List.append_assoc, List.singleton_append, hfilter]

/-- Merging two maps gives a map. -/
lemma nodup_keys_update (hd : d.keys.Nodup) (he : e.keys.Nodup) : (d.update e).keys.Nodup := by
  rw [keys_update d he, List.nodup_append]
  refine ⟨hd, he.filter _, fun x hx y hy => ?_⟩
  have hnew : y ∉ d.keys := by simpa using (List.mem_filter.mp hy).2
  exact ne_of_mem_of_not_mem hx hnew

/-- Declaring variables adds their names to those that were declared before. -/
lemma declares_declareAll :
    (declareAll env d).1.declares name = true ↔ env.declares name = true ∨ name ∈ d.keys := by
  induction d generalizing env with
  | nil => simp [declareAll, keys]
  | cons entry d ih =>
    obtain ⟨key, type⟩ := entry
    have hkeys : name ∈ keys ((key, type) :: d) ↔ name = key ∨ name ∈ keys d := by simp [keys]
    rcases env.declare_cases key type with ⟨hkey, hd⟩ | ⟨next, hd, hnext⟩
    · simp only [declareAll, hd, ih, hkeys]
      constructor
      · tauto
      · rintro (h | rfl | h)
        · exact Or.inl h
        · exact Or.inl hkey
        · exact Or.inr h
    · simp only [declareAll, hd, ih, hnext, hkeys]
      tauto

end Declarations

/-! ### Names of source texts -/

/-- A name in a text is never that of a built-in type. -/
lemma Lexeme.Formed.notMem_builtin {l : Lexeme} (h : l.Formed) (hk : l.kind = .identifier) :
    l.text ∉ DataType.builtin.map Prod.fst := by
  have htable : ∀ p ∈ DataType.builtin,
      (scanToken p.1.toList).outcome ≠ .ok ⟨.identifier, p.1, .text p.1⟩ := by
    decide +kernel
  intro hmem
  obtain ⟨p, hp, heq⟩ := List.mem_map.mp hmem
  apply htable p hp
  obtain ⟨c, cs, htext, -, hscan⟩ := h.stable
  have hread := hscan [] (by simp [Ends])
  rw [List.append_nil, ← htext] at hread
  rw [heq, hread, ← (h.eq_of_identifier hk).2]

end Barnamaj
