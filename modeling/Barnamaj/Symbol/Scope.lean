import Barnamaj.Symbol.Basic

/-!
# Scopes

A scope holds symbols of different names in the order of their definition. Looking up a name finds
its symbol in the nearest scope that defines it: in a list of scopes (`Scope.lookupIn`), such as the
open scopes of a program (`Environment`), or from a scope to the one around it in a growing forest
(`ScopeForest`).
-/

namespace Barnamaj

/-- A scope: its level and its symbols in the order of their definition, no name twice. -/
structure Scope where
  level : Nat
  symbols : List Symbol := []
  nodup : (symbols.map Symbol.name).Nodup := by exact List.nodup_nil

namespace Scope

variable (s : Scope)

/-- The symbol of a name in this scope. -/
def lookupLocal (name : String) : Option Symbol :=
  s.symbols.find? (·.name == name)

/-- Whether this scope defines a name. -/
def contains (name : String) : Bool :=
  (s.lookupLocal name).isSome

/-- The number of symbols. -/
def size : Nat := s.symbols.length

theorem not_mem_of_contains_eq_false {name : String} (h : ¬ s.contains name = true) :
    name ∉ s.symbols.map Symbol.name := by
  intro hmem
  obtain ⟨symbol, hs, rfl⟩ := List.mem_map.1 hmem
  simp only [contains, lookupLocal, List.find?_isSome, beq_iff_eq] at h
  exact h ⟨symbol, hs, rfl⟩

/-- Add a symbol behind the others, unless its name is defined already. -/
def define (symbol : Symbol) : Except SemanticFault Scope :=
  if h : s.contains symbol.name then .error (.duplicate symbol.name)
  else .ok {
    level := s.level
    symbols := s.symbols ++ [symbol]
    nodup := by
      have hnew := s.not_mem_of_contains_eq_false h
      rw [List.map_append, List.nodup_append]
      refine ⟨s.nodup, by simp, ?_⟩
      intro a ha b hb
      rw [List.map_singleton, List.mem_singleton] at hb
      exact fun hab => hnew (hb ▸ hab ▸ ha) }

/-- The symbol of a name in the first of some scopes that defines it. -/
def lookupIn (scopes : List Scope) (name : String) : Option Symbol :=
  scopes.findSome? (·.lookupLocal name)

end Scope

/-! ### Forests of scopes -/

/-- A scope in a forest, with the number of the scope around it if it is no root. -/
structure NestedScope where
  scope : Scope
  parent : Option Nat

/-- A growing forest of scopes. A scope is known by its number, and is a root or lies inside a scope
that was there before it. -/
structure ScopeForest where
  scopes : List NestedScope := []
  parent_lt {i : Nat} {n : NestedScope} :
    scopes[i]? = some n → ∀ j ∈ n.parent, j < i := by nofun

namespace ScopeForest

variable (f : ScopeForest)

/-- A scope by its number. -/
def scope? (i : Nat) : Option Scope :=
  f.scopes[i]?.map NestedScope.scope

/-- Add an empty scope inside a given one and one level above it, or a new root. -/
def add (parent : Option Nat) : ScopeForest :=
  let parent := parent.filter (· < f.scopes.length)
  let level := (parent.bind f.scope?).elim 0 (·.level + 1)
  { scopes := f.scopes ++ [⟨{ level }, parent⟩]
    parent_lt := by
      intro i n h j hj
      rw [List.getElem?_append] at h
      split at h
      · exact f.parent_lt h j hj
      · obtain ⟨hi, rfl⟩ := List.getElem?_eq_some_iff.1 h
        simp only [List.getElem_singleton, Option.mem_def, parent, Option.filter_eq_some_iff,
          decide_eq_true_eq] at hj
        omega }

/-- Replace a scope and keep its place. -/
def replace (i : Nat) (s : Scope) : ScopeForest where
  scopes := f.scopes.modify i fun old => { old with scope := s }
  parent_lt := by
    intro k n h j hj
    rw [List.getElem?_modify] at h
    obtain ⟨old, hold, rfl⟩ := Option.map_eq_some_iff.1 h
    refine f.parent_lt hold j ?_
    split at hj <;> exact hj

/-- Define a symbol in a scope. -/
def define (i : Nat) (symbol : Symbol) : Except SemanticFault ScopeForest :=
  match f.scope? i with
  | none => .ok f
  | some s => (s.define symbol).map (f.replace i)

/-- The symbol of a name in the nearest scope around a given one, that one included. -/
def lookup (i : Nat) (name : String) : Option Symbol :=
  match _hn : f.scopes[i]? with
  | none => none
  | some n =>
    match n.scope.lookupLocal name with
    | some symbol => some symbol
    | none =>
      match _hj : n.parent with
      | none => none
      | some j => lookup j name
termination_by i
decreasing_by exact f.parent_lt ‹_› _ ‹_›

theorem lookup_eq_or {i : Nat} {n : NestedScope} (h : f.scopes[i]? = some n) (name : String) :
    f.lookup i name = (n.scope.lookupLocal name).or (n.parent.bind (f.lookup · name)) := by
  rw [lookup]
  split
  · next hn => cases h.symm.trans hn
  · next n' hn =>
    cases h.symm.trans hn
    split
    · next hlocal => rw [hlocal, Option.some_or]
    · next hlocal =>
      rw [hlocal, Option.none_or]
      split
      · next hparent => rw [hparent, Option.bind_none]
      · next j hparent => rw [hparent, Option.bind_some]

end ScopeForest

end Barnamaj
