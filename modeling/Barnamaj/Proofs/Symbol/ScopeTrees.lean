import Barnamaj.Proofs.Symbol.OpenScopes

/-!
# Trees of scopes

Scopes that are made inside one another form trees, which are known by the scope around each of them
(`ScopeForest.Built`). The way from a scope to its root follows these links (`ScopeForest.Path`). A
name means what the nearest scope on this way says. A definition is seen from its own scope and from
the scopes inside it, as far as none in between defines the name too, and changes nothing else.
-/

namespace Barnamaj

namespace ScopeForest

variable {parents : List (Option ℕ)} {f next : ScopeForest} {i j t : ℕ} {path : List ℕ}
  {name : String} {symbol : Symbol} {s : Scope}

/-! ### Links -/

/-- The scopes after a definition, also after one that fails. -/
def afterDefine (f : ScopeForest) (i : ℕ) (symbol : Symbol) : ScopeForest :=
  match f.define i symbol with
  | .ok next => next
  | .error _ => f

/-- The forests that come of making scopes, each of them as a root or inside an earlier one, and of
definitions. The scope around each scope is noted in the order in which they are made. -/
inductive Built : List (Option ℕ) → ScopeForest → Prop where
  | empty : Built [] {}
  | add {parents : List (Option ℕ)} {f : ScopeForest} {parent : Option ℕ} (h : Built parents f)
      (hparent : ∀ j ∈ parent, j < parents.length) : Built (parents ++ [parent]) (f.add parent)
  | define {parents : List (Option ℕ)} {f : ScopeForest} (h : Built parents f) (i : ℕ)
      (symbol : Symbol) : Built parents (f.afterDefine i symbol)

/-- The way from a scope to its root, from one scope to the one around it. -/
inductive Path (parents : List (Option ℕ)) : ℕ → List ℕ → Prop where
  | root {i : ℕ} (h : parents[i]? = some none) : Path parents i [i]
  | inside {i j : ℕ} {path : List ℕ} (h : parents[i]? = some (some j)) (hj : Path parents j path) :
      Path parents i (i :: path)

lemma Path.unique {path' : List ℕ} (h : Path parents i path) (h' : Path parents i path') :
    path = path' := by
  induction h generalizing path' with
  | root hi =>
    cases h' with
    | root _ => rfl
    | inside hi' _ => cases hi.symm.trans hi'
  | inside hi _ ih =>
    cases h' with
    | root hi' => cases hi.symm.trans hi'
    | inside hi' hj' =>
      cases hi.symm.trans hi'
      rw [ih hj']

lemma Path.lt_length (h : Path parents i path) : i < parents.length := by
  cases h with
  | root h => exact (List.getElem?_eq_some_iff.mp h).1
  | inside h _ => exact (List.getElem?_eq_some_iff.mp h).1

/-- A scope that is made later is on no way that was there before. -/
lemma Path.append (h : Path parents i path) (parent : Option ℕ) :
    Path (parents ++ [parent]) i path := by
  have hlink : ∀ {i : ℕ} {x : Option ℕ}, parents[i]? = some x →
      (parents ++ [parent])[i]? = some x := by
    intro i x hi
    rw [List.getElem?_append_left (List.getElem?_eq_some_iff.mp hi).1, hi]
  induction h with
  | root hi => exact .root (hlink hi)
  | inside hi _ ih => exact .inside (hlink hi) ih

/-! ### Following the links -/

/-- The scopes are linked as noted, and each of them is one level above the scope around it. -/
structure Follows (parents : List (Option ℕ)) (f : ScopeForest) : Prop where
  parents_eq : f.scopes.map NestedScope.parent = parents
  level_eq {i : ℕ} {n : NestedScope} : f.scopes[i]? = some n →
    n.scope.level = (n.parent.bind f.scope?).elim 0 (·.level + 1)

lemma follows_empty : Follows [] {} :=
  ⟨rfl, fun h => by simp at h⟩

lemma Follows.length_eq (h : Follows parents f) : f.scopes.length = parents.length := by
  rw [← h.parents_eq, List.length_map]

lemma Follows.link (h : Follows parents f) {n : NestedScope} (hn : f.scopes[i]? = some n) :
    parents[i]? = some n.parent := by
  rw [← h.parents_eq, List.getElem?_map, hn, Option.map_some]

lemma Follows.exists_nested (h : Follows parents f) {parent : Option ℕ}
    (hi : parents[i]? = some parent) : ∃ n, f.scopes[i]? = some n ∧ n.parent = parent := by
  rw [← h.parents_eq, List.getElem?_map] at hi
  exact Option.map_eq_some_iff.mp hi

/-- A new scope is the last one, and the others are as they were. -/
lemma scopes_add_cases {parent : Option ℕ} {n : NestedScope}
    (h : (f.add parent).scopes[i]? = some n) : f.scopes[i]? = some n ∨
      n.parent = parent.filter (· < f.scopes.length) ∧
        n.scope.level = (n.parent.bind f.scope?).elim 0 (·.level + 1) := by
  rw [add, List.getElem?_append] at h
  split at h
  · exact Or.inl h
  · obtain ⟨-, rfl⟩ := List.getElem?_eq_some_iff.mp h
    rw [List.getElem_singleton]
    exact Or.inr ⟨rfl, rfl⟩

/-- The scopes that are there stay as they are when a scope is added. -/
lemma scope?_add (f : ScopeForest) (parent : Option ℕ) (hj : j < f.scopes.length) :
    (f.add parent).scope? j = f.scope? j := by
  rw [scope?, add, List.getElem?_append_left hj, scope?]

lemma Follows.add (h : Follows parents f) {parent : Option ℕ}
    (hparent : ∀ j ∈ parent, j < parents.length) :
    Follows (parents ++ [parent]) (f.add parent) := by
  have hfilter : parent.filter (· < f.scopes.length) = parent := by
    cases parent with
    | none => rfl
    | some j => exact Option.filter_some_pos (decide_eq_true (h.length_eq ▸ hparent j rfl))
  refine ⟨?_, fun {i n} hi => ?_⟩
  · simp [ScopeForest.add, h.parents_eq, hfilter]
  · -- the scope around is an earlier one, and stays as it is
    have haround : n.parent.bind (f.add parent).scope? = n.parent.bind f.scope? := by
      refine Option.bind_congr fun j hj => f.scope?_add parent ?_
      rcases scopes_add_cases hi with hi | ⟨hn, -⟩
      · exact (f.parent_lt hi j hj).trans (List.getElem?_eq_some_iff.mp hi).1
      · rw [hn, hfilter] at hj
        rw [h.length_eq]
        exact hparent j hj
    rw [haround]
    rcases scopes_add_cases hi with hi | ⟨-, hlevel⟩
    · exact h.level_eq hi
    · exact hlevel

lemma scope?_replace (hs : f.scope? i = some s) (s' : Scope) (j : ℕ) :
    (f.replace i s').scope? j = if j = i then some s' else f.scope? j := by
  by_cases hj : j = i
  · subst hj
    obtain ⟨n, hn, -⟩ := Option.map_eq_some_iff.mp hs
    rw [if_pos rfl, scope?, replace, List.getElem?_modify_eq, hn]
    rfl
  · rw [if_neg hj, scope?, replace, List.getElem?_modify_ne _ _ (Ne.symm hj), scope?]

/-- A scope that takes the place of another one of its level changes no link and no level. -/
lemma Follows.replace (h : Follows parents f) {s' : Scope} (hs : f.scope? i = some s)
    (hlevel : s'.level = s.level) : Follows parents (f.replace i s') := by
  have hlevels : ∀ j, ((f.replace i s').scope? j).map Scope.level =
      (f.scope? j).map Scope.level := by
    intro j
    rw [scope?_replace hs]
    split
    · next hj => rw [hj, hs, Option.map_some, Option.map_some, hlevel]
    · rfl
  have haround : ∀ parent : Option ℕ, (parent.bind (f.replace i s').scope?).elim 0 (·.level + 1) =
      (parent.bind f.scope?).elim 0 (·.level + 1) := by
    intro parent
    cases parent with
    | none => rfl
    | some j =>
      have hj := congrArg (Option.elim · 0 (· + 1)) (hlevels j)
      simpa only [Option.elim_map, Function.comp_def, Option.bind_some] using hj
  refine ⟨?_, fun {j n} hn => ?_⟩
  · rw [← h.parents_eq]
    refine List.ext_getElem? fun j => ?_
    rw [ScopeForest.replace, List.getElem?_map, List.getElem?_map, List.getElem?_modify]
    cases f.scopes[j]? with
    | none => rfl
    | some old =>
      simp only [Option.map_eq_map, Option.map_some, apply_ite NestedScope.parent, ite_self]
  · rw [haround]
    have hn' := hn
    rw [ScopeForest.replace, List.getElem?_modify] at hn
    obtain ⟨old, hold, rfl⟩ := Option.map_eq_some_iff.mp hn
    have hj := hlevels j
    rw [scope?, scope?, hn', hold] at hj
    rw [Option.some.inj hj, h.level_eq hold]
    split <;> rfl

/-! ### Definitions -/

/-- The symbol that a scope itself holds for a name. -/
def held (f : ScopeForest) (i : ℕ) (name : String) : Option Symbol :=
  (f.scope? i).bind (·.lookupLocal name)

lemma held_of_scope (hs : f.scope? i = some s) (name : String) :
    f.held i name = s.lookupLocal name := by
  rw [held, hs, Option.bind_some]

/-- A definition fails exactly if the scope itself holds the name. Otherwise the symbol is put
behind the others there. -/
lemma define_cases (hs : f.scope? i = some s) (symbol : Symbol) :
    (f.held i symbol.name ≠ none ∧ f.define i symbol = .error (.duplicate symbol.name)) ∨
      f.held i symbol.name = none ∧ ∃ s', s'.level = s.level ∧ s'.symbols = s.symbols ++ [symbol] ∧
        f.define i symbol = .ok (f.replace i s') := by
  rw [held_of_scope hs]
  by_cases hc : s.contains symbol.name = true
  · refine Or.inl ⟨Option.ne_none_iff_isSome.mpr hc, ?_⟩
    rw [define, hs]
    simp only [Scope.define_of_contains hc]
    rfl
  · obtain ⟨s', hd, hlevel, hsymbols⟩ := Scope.define_of_not_contains hc
    refine Or.inr ⟨by simpa [Scope.contains] using hc, s', hlevel, hsymbols, ?_⟩
    rw [define, hs]
    simp only [hd]
    rfl

lemma Follows.afterDefine (h : Follows parents f) (i : ℕ) (symbol : Symbol) :
    Follows parents (f.afterDefine i symbol) := by
  rw [ScopeForest.afterDefine]
  cases hs : f.scope? i with
  | none =>
    simp only [ScopeForest.define, hs]
    exact h
  | some s =>
    rcases define_cases hs symbol with ⟨-, hd⟩ | ⟨-, s', hlevel, -, hd⟩
    · rw [hd]
      exact h
    · rw [hd]
      exact h.replace hs hlevel

/-- Forests that are built from scopes inside one another follow the links between them. -/
lemma Built.follows (h : Built parents f) : Follows parents f := by
  induction h with
  | empty => exact follows_empty
  | add _ hparent ih => exact ih.add hparent
  | define _ i symbol ih => exact ih.afterDefine i symbol

/-- After a definition its scope holds the symbol, and else each scope holds what it held. -/
lemma held_replace {s' : Scope} (hs : f.scope? i = some s) (hnew : f.held i symbol.name = none)
    (hsymbols : s'.symbols = s.symbols ++ [symbol]) (j : ℕ) (name : String) :
    (f.replace i s').held j name =
      if j = i ∧ name = symbol.name then some symbol else f.held j name := by
  rw [held, scope?_replace hs]
  rw [held_of_scope hs, Scope.lookupLocal] at hnew
  by_cases hj : j = i
  · subst hj
    simp only [true_and, if_true, Option.bind_some]
    rw [held_of_scope hs, Scope.lookupLocal, hsymbols, List.find?_append]
    by_cases hname : name = symbol.name
    · subst hname
      simp [hnew]
    · have hother : [symbol].find? (·.name == name) = none := by
        simpa using Ne.symm hname
      rw [if_neg hname, hother, Option.or_none, Scope.lookupLocal]
  · rw [if_neg hj, if_neg fun hc => hj hc.1, held]

/-! ### Lookups -/

/-- A name is looked up on the way from a scope to its root. -/
lemma Follows.lookup_eq (h : Follows parents f) (hp : Path parents i path) (name : String) :
    f.lookup i name = path.findSome? (f.held · name) := by
  have hheld : ∀ {i : ℕ} {n : NestedScope}, f.scopes[i]? = some n →
      f.held i name = n.scope.lookupLocal name := fun hn =>
    held_of_scope (by rw [scope?, hn, Option.map_some]) name
  induction hp with
  | root hi =>
    obtain ⟨n, hn, hparent⟩ := h.exists_nested hi
    rw [f.lookup_eq_or hn, hparent, Option.bind_none, Option.or_none, ← hheld hn,
      List.findSome?_singleton]
  | inside hi _ ih =>
    obtain ⟨n, hn, hparent⟩ := h.exists_nested hi
    rw [f.lookup_eq_or hn, hparent, Option.bind_some, ← hheld hn, ih, List.findSome?_cons]
    cases f.held _ name <;> rfl

lemma Follows.lookup_some_iff (h : Follows parents f) (hp : Path parents i path) {x : Symbol} :
    f.lookup i name = some x ↔ ∃ inner j outer, path = inner ++ j :: outer ∧
      f.held j name = some x ∧ ∀ k ∈ inner, f.held k name = none := by
  rw [h.lookup_eq hp, List.findSome?_eq_some_iff]

lemma Follows.lookup_none_iff (h : Follows parents f) (hp : Path parents i path) :
    f.lookup i name = none ↔ ∀ j ∈ path, f.held j name = none := by
  rw [h.lookup_eq hp, List.findSome?_eq_none_iff]

lemma held_some_iff {x : Symbol} :
    f.held i name = some x ↔ ∃ s, f.scope? i = some s ∧ x ∈ s.symbols ∧ x.name = name := by
  simp only [held, Option.bind_eq_some_iff, Scope.lookupLocal_eq_some_iff]

/-- On the way to the root, a scope comes before any other one that holds a name. -/
def Reaches (f : ScopeForest) (path : List ℕ) (i : ℕ) (name : String) : Prop :=
  ∃ inner outer, path = inner ++ i :: outer ∧ ∀ k ∈ inner, f.held k name = none

lemma reaches_cons_self (f : ScopeForest) (i : ℕ) (path : List ℕ) (name : String) :
    f.Reaches (i :: path) i name :=
  ⟨[], path, rfl, by simp⟩

lemma reaches_cons_of_ne {k : ℕ} (hk : k ≠ i) :
    f.Reaches (k :: path) i name ↔ f.held k name = none ∧ f.Reaches path i name := by
  constructor
  · rintro ⟨inner, outer, heq, hinner⟩
    cases inner with
    | nil =>
      cases heq
      exact absurd rfl hk
    | cons k' inner =>
      cases heq
      rw [List.forall_mem_cons] at hinner
      exact ⟨hinner.1, inner, outer, rfl, hinner.2⟩
  · rintro ⟨hnone, inner, outer, rfl, hinner⟩
    exact ⟨k :: inner, outer, rfl, List.forall_mem_cons.mpr ⟨hnone, hinner⟩⟩

section Define

variable (hnext : ∀ j name, next.held j name =
  if j = i ∧ name = symbol.name then some symbol else f.held j name)

include hnext

/-- A symbol that a scope newly holds is found from where this scope is reached. -/
lemma findSome?_held_of_reaches (hr : f.Reaches path i symbol.name) :
    path.findSome? (next.held · symbol.name) = some symbol := by
  induction path with
  | nil =>
    obtain ⟨inner, outer, heq, -⟩ := hr
    simp at heq
  | cons k path ih =>
    by_cases hk : k = i
    · subst hk
      simp [hnext]
    · obtain ⟨hnone, hr⟩ := (reaches_cons_of_ne hk).mp hr
      have hk' : next.held k symbol.name = none := by
        rw [hnext, if_neg (by simp [hk]), hnone]
      rw [List.findSome?_cons_of_isNone (by rw [hk']; rfl), ih hr]

/-- Other names are found as before, and so is the name of the symbol from everywhere else. -/
lemma findSome?_held_of_not_reaches (hr : ¬ (name = symbol.name ∧ f.Reaches path i name)) :
    path.findSome? (next.held · name) = path.findSome? (f.held · name) := by
  induction path with
  | nil => rfl
  | cons k path ih =>
    have hk : next.held k name = f.held k name := by
      rw [hnext, if_neg]
      rintro ⟨rfl, hname⟩
      exact hr ⟨hname, f.reaches_cons_self k path name⟩
    rw [List.findSome?_cons, List.findSome?_cons, hk]
    cases hheld : f.held k name with
    | some x => rfl
    | none =>
      refine ih fun ⟨hname, hpath⟩ => ?_
      by_cases hki : k = i
      · exact hr ⟨hname, hki ▸ f.reaches_cons_self k path name⟩
      · exact hr ⟨hname, (reaches_cons_of_ne hki).mpr ⟨hheld, hpath⟩⟩

end Define

/-! ### The whole -/

/-- What a definition that does not fail does to scopes and to lookups in them. -/
structure Extends (parents : List (Option ℕ)) (i : ℕ) (symbol : Symbol) (f next : ScopeForest) :
    Prop where
  /-- The symbol stands behind the earlier ones of its scope. -/
  scope : ∃ s s', f.scope? i = some s ∧ next.scope? i = some s' ∧ s'.level = s.level ∧
    s'.symbols = s.symbols ++ [symbol]
  others (j : ℕ) (hj : j ≠ i) : next.scope? j = f.scope? j
  /-- The symbol is found from its scope and from inside it, unless its name is held on the way. -/
  seen (t : ℕ) (path : List ℕ) (ht : Path parents t path) (hr : f.Reaches path i symbol.name) :
    next.lookup t symbol.name = some symbol
  /-- Whatever else is looked up is found as before. -/
  unseen (t : ℕ) (path : List ℕ) (name : String) (ht : Path parents t path)
    (hr : ¬ (name = symbol.name ∧ f.Reaches path i name)) : next.lookup t name = f.lookup t name

/-- The scopes are in order: their levels, what is found from them, and what definitions do. -/
structure Resolves (parents : List (Option ℕ)) (f : ScopeForest) : Prop where
  scope_iff (i : ℕ) : (∃ s, f.scope? i = some s) ↔ i < parents.length
  /-- Every scope has a way to its root, and only one. -/
  path (i : ℕ) (hi : i < parents.length) : ∃! path, Path parents i path
  /-- The level of a scope is the number of steps on this way. -/
  level (i : ℕ) (path : List ℕ) (s : Scope) (hi : Path parents i path) (hs : f.scope? i = some s) :
    s.level + 1 = path.length
  held_some (i : ℕ) (name : String) (x : Symbol) :
    f.held i name = some x ↔ ∃ s, f.scope? i = some s ∧ x ∈ s.symbols ∧ x.name = name
  /-- A name is found in the nearest scope on the way that holds it. -/
  lookup_some (i : ℕ) (path : List ℕ) (name : String) (x : Symbol) (hi : Path parents i path) :
    f.lookup i name = some x ↔ ∃ inner j outer, path = inner ++ j :: outer ∧
      f.held j name = some x ∧ ∀ k ∈ inner, f.held k name = none
  lookup_none (i : ℕ) (path : List ℕ) (name : String) (hi : Path parents i path) :
    f.lookup i name = none ↔ ∀ j ∈ path, f.held j name = none
  /-- A definition fails exactly if the scope itself holds the name. -/
  define_fails (i : ℕ) (symbol : Symbol) (hi : i < parents.length) :
    (∃ fault, f.define i symbol = .error fault) ↔ f.held i symbol.name ≠ none
  define_error (i : ℕ) (symbol : Symbol) (fault : SemanticFault)
    (h : f.define i symbol = .error fault) :
    fault = .duplicate symbol.name ∧ f.afterDefine i symbol = f
  define_ok (i : ℕ) (symbol : Symbol) (next : ScopeForest) (hi : i < parents.length)
    (h : f.define i symbol = .ok next) : Extends parents i symbol f next

lemma Follows.extends (h : Follows parents f) {s' : Scope} (hs : f.scope? i = some s)
    (hnew : f.held i symbol.name = none) (hlevel : s'.level = s.level)
    (hsymbols : s'.symbols = s.symbols ++ [symbol]) :
    Extends parents i symbol f (f.replace i s') := by
  have hnext := held_replace hs hnew hsymbols
  have hfollows := h.replace hs hlevel
  refine ⟨⟨s, s', hs, ?_, hlevel, hsymbols⟩, fun j hj => ?_, fun t path ht hr => ?_,
    fun t path name ht hr => ?_⟩
  · rw [scope?_replace hs, if_pos rfl]
  · rw [scope?_replace hs, if_neg hj]
  · rw [hfollows.lookup_eq ht, findSome?_held_of_reaches hnext hr]
  · rw [hfollows.lookup_eq ht, h.lookup_eq ht, findSome?_held_of_not_reaches hnext hr]

lemma Follows.scope_iff (h : Follows parents f) :
    (∃ s, f.scope? i = some s) ↔ i < parents.length := by
  rw [← h.length_eq, ← Option.isSome_iff_exists, scope?, Option.isSome_map]
  simp

/-- The level of a scope is the number of steps to its root. -/
lemma Follows.level_add_one (h : Follows parents f) (hp : Path parents i path)
    (hs : f.scope? i = some s) : s.level + 1 = path.length := by
  induction hp generalizing s with
  | root hi =>
    obtain ⟨n, hn, hparent⟩ := h.exists_nested hi
    rw [scope?, hn] at hs
    cases hs
    rw [h.level_eq hn, hparent]
    rfl
  | inside hi hj ih =>
    obtain ⟨n, hn, hparent⟩ := h.exists_nested hi
    obtain ⟨around, haround⟩ := h.scope_iff.mpr hj.lt_length
    rw [scope?, hn] at hs
    cases hs
    rw [h.level_eq hn, hparent, Option.bind_some, haround, Option.elim_some, ih haround,
      List.length_cons]

/-- Every scope has a way to its root, since the scope around it is an earlier one. -/
lemma Follows.exists_path (h : Follows parents f) (hi : i < parents.length) :
    ∃ path, Path parents i path := by
  induction i using Nat.strong_induction_on with
  | _ i ih =>
    have hi' : i < f.scopes.length := h.length_eq ▸ hi
    have hn := List.getElem?_eq_getElem hi'
    have hlink := h.link hn
    cases hparent : f.scopes[i].parent with
    | none => exact ⟨_, .root (hparent ▸ hlink)⟩
    | some j =>
      have hj : j < i := f.parent_lt hn j hparent
      obtain ⟨path, hp⟩ := ih j hj (hj.trans hi)
      exact ⟨_, .inside (hparent ▸ hlink) hp⟩

lemma define_eq_error {fault : SemanticFault} (h : f.define i symbol = .error fault) :
    fault = .duplicate symbol.name ∧ f.held i symbol.name ≠ none := by
  cases hs : f.scope? i with
  | none =>
    simp only [define, hs] at h
    cases h
  | some s =>
    rcases define_cases hs symbol with ⟨hheld, hd⟩ | ⟨-, s', -, -, hd⟩
    · rw [hd] at h
      cases h
      exact ⟨rfl, hheld⟩
    · rw [hd] at h
      cases h

end ScopeForest

open ScopeForest in
/-- Scopes that are made inside one another are in order, whatever is defined in them and whether or
not it fails. The level of a scope is its distance to the root. A name is found in the nearest scope
on the way to the root that holds it. A definition fails if its own scope holds the name, and
changes nothing then. Else it puts the symbol behind the others of its scope, which changes what the
name means from there and from inside as far as the name is not held on the way, and nothing
else. -/
theorem scope_trees_resolve_to_nearest {parents : List (Option ℕ)} {f : ScopeForest}
    (h : Built parents f) : Resolves parents f where
  scope_iff _ := h.follows.scope_iff
  path _ hi := by
    obtain ⟨path, hp⟩ := h.follows.exists_path hi
    exact ⟨path, hp, fun _ hp' => hp'.unique hp⟩
  level _ _ _ hp hs := h.follows.level_add_one hp hs
  held_some _ _ _ := held_some_iff
  lookup_some _ _ _ _ hp := h.follows.lookup_some_iff hp
  lookup_none _ _ _ hp := h.follows.lookup_none_iff hp
  define_fails i symbol hi := by
    obtain ⟨s, hs⟩ := h.follows.scope_iff.mpr hi
    constructor
    · rintro ⟨fault, hd⟩
      exact (define_eq_error hd).2
    · intro hheld
      rcases define_cases hs symbol with ⟨-, hd⟩ | ⟨hnew, -⟩
      · exact ⟨_, hd⟩
      · exact absurd hnew hheld
  define_error i symbol fault hd := by
    refine ⟨(define_eq_error hd).1, ?_⟩
    rw [afterDefine, hd]
  define_ok i symbol next hi hd := by
    obtain ⟨s, hs⟩ := h.follows.scope_iff.mpr hi
    rcases define_cases hs symbol with ⟨-, hd'⟩ | ⟨hnew, s', hlevel, hsymbols, hd'⟩
    · cases hd.symm.trans hd'
    · cases hd.symm.trans hd'
      exact h.follows.extends hs hnew hlevel hsymbols

open ScopeForest in
/-- Of two scopes inside a third one, a definition in the first is seen from inside it, and leaves
the second with what the name means outside. -/
theorem sibling_scope_keeps_outer_meaning :
    ∃ f next, Built [none, some 0, some 0, some 1] f ∧
      f.define 1 { name := "س", type := .real, level := 1 } = .ok next ∧
      next.lookup 3 "س" = some { name := "س", type := .real, level := 1 } ∧
      next.lookup 2 "س" = f.lookup 2 "س" ∧
      f.lookup 2 "س" = some { name := "س", type := .integer, level := 0 } := by
  obtain ⟨f, hbuilt, ⟨next, hd⟩, hheld, houter⟩ :
      ∃ f, Built [none, some 0, some 0, some 1] f ∧
        (∃ next, f.define 1 { name := "س", type := .real, level := 1 } = .ok next) ∧
        (∀ k ∈ [3], f.held k "س" = none) ∧
        f.lookup 2 "س" = some { name := "س", type := .integer, level := 0 } := by
    refine ⟨_, .add (.add (.add (.define (.add .empty (by decide)) 0
      { name := "س", type := .integer, level := 0 }) (by decide)) (by decide)) (by decide),
      ⟨_, rfl⟩, by decide, by decide +kernel⟩
  have hin : Path [none, some 0, some 0, some 1] 3 [3, 1, 0] :=
    .inside rfl (.inside rfl (.root rfl))
  have hout : Path [none, some 0, some 0, some 1] 2 [2, 0] := .inside rfl (.root rfl)
  have hextends := (scope_trees_resolve_to_nearest hbuilt).define_ok 1 _ _ (by decide) hd
  refine ⟨f, next, hbuilt, hd, ?_, ?_, houter⟩
  · exact hextends.seen 3 _ hin ⟨[3], [0], rfl, hheld⟩
  · refine hextends.unseen 2 _ _ hout fun ⟨_, inner, outer, hpath, _⟩ => ?_
    have hmem : 1 ∈ [2, 0] := hpath ▸ List.mem_append_right _ List.mem_cons_self
    exact absurd hmem (by decide)

end Barnamaj
