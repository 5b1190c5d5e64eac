import Barnamaj.Proofs.Symbol.Declared
import Barnamaj.Symbol.Usage
import Mathlib.Data.Finmap

/-!
# Open scopes as a stack of maps

Seen from outside, the open scopes of a program are a stack of finite maps from names to what they
stand for (`MapStack`): a declaration adds to the map on top, and a name means what the nearest map
says that has it. The level of a symbol is the number of maps below its own. Every call on the open
scopes answers, fails and changes them just as on such a stack, whatever has been called before.
-/

namespace Barnamaj

/-! ### Calls -/

/-- The scopes that are open, the innermost first. -/
def Environment.scopes (env : Environment) : List Scope :=
  env.scope :: env.outer

namespace Environment

/-- What is done with open scopes from outside. -/
inductive Call where
  | declare (name : String) (type : DataType)
  | push
  | pop
  | lookup (name : String)
  | resolveType (name : String)
  | analyze (tree : Node)

/-- What a call answers: the symbol that was declared, the level of the scope that is now the
innermost one, the symbol that was found, a type, or that nothing is wrong with a tree. -/
inductive Answer where
  | declared (symbol : Symbol)
  | level (n : ℕ)
  | found (symbol : Option Symbol)
  | type (type : DataType)
  | sound

variable (env : Environment)

/-- The answer to a call and the open scopes after it, unless it fails. -/
def perform : Call → Except SemanticFault (Answer × Environment)
  | .declare name type =>
    (env.declare name type).map fun next => (.declared (env.variableSymbol name type), next)
  | .push => .ok (.level env.push.scope.level, env.push)
  | .pop => env.pop.map fun next => (.level next.scope.level, next)
  | .lookup name => .ok (.found (env.lookup name), env)
  | .resolveType name => (env.resolveType name).map fun type => (.type type, env)
  | .analyze tree => (env.analyze tree).map fun _ => (.sound, env)

/-- The open scopes after a call, also after one that fails. -/
def after (call : Call) : Environment :=
  match env.perform call with
  | .ok (_, next) => next
  | .error _ => env

/-- The open scopes after some calls, one after the other. -/
def afterAll (calls : List Call) : Environment :=
  calls.foldl after env

end Environment

/-! ### Stacks of maps -/

/-- What a name stands for. -/
structure Meaning where
  type : DataType
  kind : SymbolKind

/-- A finite map from names to what they stand for. -/
abbrev NameMap := Finmap fun _ : String => Meaning

/-- A stack of maps, the innermost one on top. -/
structure MapStack where
  top : NameMap
  below : List NameMap := []

namespace MapStack

/-- The built-in types alone. -/
def initial : MapStack :=
  { top := (DataType.builtin.map fun (name, type) => ⟨name, type, .type⟩).toFinmap }

/-- What the first map says that has a name, as a symbol of the level of this map. -/
def lookupIn : List NameMap → String → Option Symbol
  | [], _ => none
  | m :: below, name =>
    match m.lookup name with
    | some x => some { name, type := x.type, level := below.length, kind := x.kind }
    | none => lookupIn below name

variable (m : MapStack)

/-- What the nearest map says that has a name. -/
def lookup (name : String) : Option Symbol :=
  lookupIn (m.top :: m.below) name

/-- The answer to a call and the stack after it, unless it fails. -/
def perform : Environment.Call → Except SemanticFault (Environment.Answer × MapStack)
  | .declare name type =>
    if name ∈ m.top then .error (.duplicate name)
    else .ok (.declared { name, type, level := m.below.length },
      { m with top := m.top.insert name ⟨type, .var⟩ })
  | .push => .ok (.level (m.below.length + 1), { top := ∅, below := m.top :: m.below })
  | .pop =>
    match m.below with
    | [] => .error .leavingGlobal
    | top :: below => .ok (.level below.length, { top, below })
  | .lookup name => .ok (.found (m.lookup name), m)
  | .resolveType name =>
    match m.lookup name, DataType.ofName? (Text.capitals name) with
    | some ⟨_, type, _, .type⟩, _ => .ok (.type type, m)
    | _, some type => .ok (.type type, m)
    | _, none => .error (.unknownType name)
  | .analyze tree =>
    (Node.checkAll (fun name => (m.lookup name).isSome) tree.body.statements).map
      fun _ => (.sound, m)

/-- The stack after a call, also after one that fails. -/
def after (call : Environment.Call) : MapStack :=
  match m.perform call with
  | .ok (_, next) => next
  | .error _ => m

/-- The stack after some calls, one after the other. -/
def afterAll (calls : List Environment.Call) : MapStack :=
  calls.foldl after m

end MapStack

/-! ### Scopes as maps -/

/-- What a symbol stands for. -/
def Symbol.meaning (x : Symbol) : Meaning := ⟨x.type, x.kind⟩

/-- A scope as a map. -/
def Scope.toMap (s : Scope) : NameMap :=
  (s.symbols.map fun x => ⟨x.name, x.meaning⟩).toFinmap

/-- The open scopes as a stack of maps. -/
def Environment.toMaps (env : Environment) : MapStack :=
  { top := env.scope.toMap, below := env.outer.map Scope.toMap }

namespace Scope

variable {s : Scope} {name : String} {level : ℕ}

lemma lookupLocal_eq_none_iff :
    s.lookupLocal name = none ↔ name ∉ s.symbols.map Symbol.name := by
  simp [lookupLocal, List.find?_eq_none]

/-- As no name is defined twice, a scope finds each of its symbols. -/
lemma lookupLocal_eq_some_iff {x : Symbol} :
    s.lookupLocal name = some x ↔ x ∈ s.symbols ∧ x.name = name := by
  constructor
  · intro h
    exact ⟨List.mem_of_find?_eq_some h, by simpa using List.find?_some h⟩
  · rintro ⟨hx, rfl⟩
    cases hy : s.lookupLocal x.name with
    | none => exact absurd (List.mem_map_of_mem hx) (lookupLocal_eq_none_iff.mp hy)
    | some y =>
      have hname : y.name = x.name := by simpa using List.find?_some hy
      rw [List.inj_on_of_nodup_map s.nodup (List.mem_of_find?_eq_some hy) hx hname]

lemma lookup_toMap (s : Scope) (name : String) :
    s.toMap.lookup name = (s.lookupLocal name).map Symbol.meaning := by
  rw [toMap, Finmap.dlookup_list_toFinmap, lookupLocal]
  induction s.symbols with
  | nil => rfl
  | cons x xs ih =>
    rw [List.map_cons]
    by_cases h : x.name = name
    · subst h
      simp
    · rw [List.dlookup_cons_ne _ _ (Ne.symm h), ih, List.find?_cons_of_neg (by simpa using h)]

lemma mem_toMap_iff : name ∈ s.toMap ↔ s.contains name = true := by
  rw [← Finmap.lookup_isSome, lookup_toMap, Option.isSome_map, contains]

lemma toMap_of_symbols_eq_nil (h : s.symbols = []) : s.toMap = ∅ := by
  rw [toMap, h, List.map_nil, Finmap.toFinmap_nil]

/-- A symbol behind the others is an entry more in the map. -/
lemma toMap_of_symbols_eq_append {s' : Scope} {x : Symbol} (hx : ¬ s.contains x.name = true)
    (h : s'.symbols = s.symbols ++ [x]) : s'.toMap = s.toMap.insert x.name x.meaning := by
  apply Finmap.ext_lookup
  intro name
  rw [lookup_toMap, lookupLocal, h, List.find?_append]
  by_cases hname : name = x.name
  · subst hname
    have hnone : s.symbols.find? (·.name == x.name) = none := by
      simpa [contains, lookupLocal] using hx
    simp [hnone]
  · have hother : [x].find? (·.name == name) = none := by
      simpa using Ne.symm hname
    rw [Finmap.lookup_insert_of_ne _ hname, lookup_toMap, lookupLocal, hother, Option.or_none]

/-! ### The invariant -/

/-- The scope is at home at a level: so are its symbols, and its types are those that are built in,
which belong to level zero. -/
structure AtLevel (level : ℕ) (s : Scope) : Prop where
  level_eq : s.level = level
  symbols_level : ∀ x ∈ s.symbols, x.level = level
  types : s.symbols.filter (·.kind = .type) =
    if level = 0 then Environment.globalScope.symbols else []

/-- The scopes are at home at the levels down to zero. -/
def Nested : List Scope → Prop
  | [] => True
  | s :: outer => s.AtLevel outer.length ∧ Nested outer

lemma atLevel_globalScope : Environment.globalScope.AtLevel 0 := by
  refine ⟨rfl, ?_, ?_⟩
  · intro x hx
    obtain ⟨entry, -, rfl⟩ := List.mem_map.mp hx
    rfl
  · rfl

lemma atLevel_empty {s : Scope} (hs : s.symbols = []) (hl : s.level ≠ 0) : s.AtLevel s.level := by
  refine ⟨rfl, by simp [hs], ?_⟩
  rw [hs, if_neg hl, List.filter_nil]

/-- A scope stays at home at its level when a variable of this level is added. -/
lemma AtLevel.append {s' : Scope} {x : Symbol} (h : s.AtLevel level) (hl : s'.level = s.level)
    (hs : s'.symbols = s.symbols ++ [x]) (hx : x.level = level) (hk : x.kind = .var) :
    s'.AtLevel level := by
  refine ⟨hl.trans h.level_eq, ?_, ?_⟩
  · rw [hs, List.forall_mem_append]
    exact ⟨h.symbols_level, by simpa using hx⟩
  · rw [hs, List.filter_append, h.types, List.filter_cons_of_neg (by simp [hk]), List.filter_nil,
      List.append_nil]

variable {scopes : List Scope}

lemma Nested.map_level (h : Nested scopes) :
    scopes.map Scope.level = (List.range scopes.length).reverse := by
  induction scopes with
  | nil => rfl
  | cons s outer ih =>
    rw [List.map_cons, List.length_cons, List.range_succ, List.reverse_append, ih h.2, h.1.level_eq]
    rfl

lemma Nested.atLevel_of_mem (h : Nested scopes) {s : Scope} (hs : s ∈ scopes) :
    s.AtLevel s.level := by
  induction scopes with
  | nil => cases hs
  | cons t outer ih =>
    rcases List.mem_cons.mp hs with rfl | hs
    · rw [h.1.level_eq]
      exact h.1
    · exact ih h.2 hs

/-- Looking up a name in scopes is looking it up in their maps. -/
lemma Nested.lookupIn_eq (h : Nested scopes) (name : String) :
    lookupIn scopes name = MapStack.lookupIn (scopes.map toMap) name := by
  induction scopes with
  | nil => rfl
  | cons s outer ih =>
    rw [List.map_cons, MapStack.lookupIn, lookup_toMap, lookupIn, List.findSome?_cons]
    cases hx : s.lookupLocal name with
    | none => exact ih h.2
    | some x =>
      have hname : x.name = name := by simpa using List.find?_some hx
      have hlevel := h.1.symbols_level x (List.mem_of_find?_eq_some hx)
      obtain ⟨xname, xtype, xlevel, xkind⟩ := x
      simp only at hname hlevel
      simp [Symbol.meaning, hname, hlevel]

end Scope

namespace Environment

variable {env : Environment} {call : Call}

/-! ### Steps -/

/-- What a call can do to the open scopes: nothing, add a variable to the innermost one, open a
scope, or close one. Only the calls that are there for it open or close scopes. -/
lemma after_cases (env : Environment) (call : Call) :
    env.after call = env ∨
    (∃ name type s, ¬ env.scope.contains name = true ∧ call = .declare name type ∧
      s.level = env.scope.level ∧
      s.symbols = env.scope.symbols ++ [env.variableSymbol name type] ∧
      env.after call = { env with scope := s }) ∨
    (call = .push ∧ env.after call = env.push) ∨
    ∃ scope outer, env.outer = scope :: outer ∧ call = .pop ∧
      env.after call = { scope, outer } := by
  cases call with
  | declare name type =>
    by_cases h : env.scope.contains name = true
    · left
      rw [after, perform, declare_of_contains h]
      rfl
    · obtain ⟨s, hd, hlevel, hsymbols⟩ := declare_of_not_contains h type
      refine Or.inr (Or.inl ⟨name, type, s, h, rfl, hlevel, hsymbols, ?_⟩)
      rw [after, perform, hd]
      rfl
  | push => exact Or.inr (Or.inr (Or.inl ⟨rfl, rfl⟩))
  | pop =>
    cases h : env.outer with
    | nil =>
      left
      simp only [after, perform, pop, h, Except.map]
    | cons scope outer =>
      refine Or.inr (Or.inr (Or.inr ⟨scope, outer, rfl, rfl, ?_⟩))
      simp only [after, perform, pop, h, Except.map]
  | lookup name => exact Or.inl rfl
  | resolveType name =>
    left
    rw [after, perform]
    cases env.resolveType name <;> rfl
  | analyze tree =>
    left
    rw [after, perform]
    cases env.analyze tree <;> rfl

lemma nested_initial : Scope.Nested initial.scopes :=
  ⟨Scope.atLevel_globalScope, trivial⟩

lemma nested_after (h : Scope.Nested env.scopes) (call : Call) :
    Scope.Nested (env.after call).scopes := by
  obtain ⟨hscope, houter⟩ := h
  rcases env.after_cases call with heq | ⟨name, type, s, -, -, hlevel, hsymbols, heq⟩ |
    ⟨-, heq⟩ | ⟨scope, outer, hout, -, heq⟩
  · rw [heq]
    exact ⟨hscope, houter⟩
  · rw [heq]
    refine ⟨hscope.append hlevel hsymbols ?_ rfl, houter⟩
    simp only [variableSymbol, hscope.level_eq]
  · have hempty : env.push.scope.AtLevel env.push.scope.level :=
      Scope.atLevel_empty rfl (Nat.succ_ne_zero _)
    have hlevel : env.push.scope.level = (env.scope :: env.outer).length := by
      simp [push, hscope.level_eq]
    rw [heq]
    exact ⟨hlevel ▸ hempty, hscope, houter⟩
  · rw [heq]
    rw [hout] at houter
    exact houter

lemma nested_afterAll (h : Scope.Nested env.scopes) (calls : List Call) :
    Scope.Nested (env.afterAll calls).scopes := by
  induction calls generalizing env with
  | nil => exact h
  | cons call calls ih => exact ih (nested_after h call)

/-! ### Refinement -/

lemma lookup_eq (h : Scope.Nested env.scopes) (name : String) :
    env.lookup name = env.toMaps.lookup name :=
  h.lookupIn_eq name

lemma declares_eq_isSome (h : Scope.Nested env.scopes) :
    env.declares = fun name => (env.toMaps.lookup name).isSome := by
  funext name
  rw [declares, lookup_eq h]

lemma level_eq_length (h : Scope.Nested env.scopes) :
    env.scope.level = env.toMaps.below.length := by
  rw [h.1.level_eq, toMaps, List.length_map]

lemma perform_declare_toMaps (h : Scope.Nested env.scopes) (name : String) (type : DataType) :
    (env.perform (.declare name type)).map (Prod.map id toMaps) =
      env.toMaps.perform (.declare name type) := by
  rw [MapStack.perform]
  by_cases hc : env.scope.contains name = true
  · have hmem : name ∈ env.toMaps.top := Scope.mem_toMap_iff.mpr hc
    rw [if_pos hmem, perform, declare_of_contains hc]
    rfl
  · have hmem : name ∉ env.toMaps.top := mt Scope.mem_toMap_iff.mp hc
    obtain ⟨s, hd, -, hsymbols⟩ := declare_of_not_contains hc type
    have hmap := Scope.toMap_of_symbols_eq_append hc hsymbols
    rw [if_neg hmem, perform, hd, ← level_eq_length h]
    simp only [Except.map, Prod.map, id, toMaps, hmap]
    rfl

/-- A call on open scopes answers and changes them, or fails, as it does on their maps. -/
lemma perform_toMaps (h : Scope.Nested env.scopes) (call : Call) :
    (env.perform call).map (Prod.map id toMaps) = env.toMaps.perform call := by
  cases call with
  | declare name type => exact perform_declare_toMaps h name type
  | push =>
    have hempty : env.push.scope.toMap = ∅ := Scope.toMap_of_symbols_eq_nil rfl
    rw [perform, MapStack.perform, ← level_eq_length h]
    simp only [Except.map, Prod.map, id, toMaps, hempty]
    rfl
  | pop =>
    cases hout : env.outer with
    | nil => simp only [perform, MapStack.perform, pop, toMaps, hout, List.map_nil, Except.map]
    | cons scope outer =>
      have hnext : scope.level = (outer.map Scope.toMap).length := by
        rw [scopes, hout] at h
        rw [h.2.1.level_eq, List.length_map]
      simp only [perform, MapStack.perform, pop, toMaps, hout, List.map_cons, Except.map, Prod.map,
        id, hnext]
  | lookup name =>
    rw [perform, MapStack.perform, ← lookup_eq h]
    rfl
  | resolveType name =>
    rw [perform, MapStack.perform, ← lookup_eq h, resolveType]
    cases hx : env.lookup name with
    | none => cases DataType.ofName? (Text.capitals name) <;> rfl
    | some x =>
      obtain ⟨xname, xtype, xlevel, xkind⟩ := x
      cases xkind with
      | type => rfl
      | var => cases DataType.ofName? (Text.capitals name) <;> rfl
  | analyze tree =>
    rw [perform, MapStack.perform, analyze, declares_eq_isSome h]
    generalize Node.checkAll _ _ = result
    cases result <;> rfl

lemma toMaps_after (h : Scope.Nested env.scopes) (call : Call) :
    (env.after call).toMaps = env.toMaps.after call := by
  rw [after, MapStack.after, ← perform_toMaps h]
  cases env.perform call <;> rfl

lemma toMaps_initial : initial.toMaps = MapStack.initial := rfl

lemma toMaps_afterAll (h : Scope.Nested env.scopes) (calls : List Call) :
    (env.afterAll calls).toMaps = env.toMaps.afterAll calls := by
  induction calls generalizing env with
  | nil => rfl
  | cons call calls ih =>
    calc (env.afterAll (call :: calls)).toMaps
        = ((env.after call).afterAll calls).toMaps := rfl
      _ = (env.after call).toMaps.afterAll calls := ih (nested_after h call)
      _ = (env.toMaps.after call).afterAll calls := by rw [toMaps_after h]
      _ = env.toMaps.afterAll (call :: calls) := rfl

/-! ### Scopes that are opened and closed -/

/-- Calls in which every scope that is opened is closed again, and no other one. -/
inductive Balanced : List Call → Prop where
  | nil : Balanced []
  | cons {call : Call} {calls : List Call} (hpush : call ≠ .push) (hpop : call ≠ .pop)
      (h : Balanced calls) : Balanced (call :: calls)
  | nested {inside calls : List Call} (hinside : Balanced inside) (h : Balanced calls) :
      Balanced (.push :: (inside ++ .pop :: calls))

lemma afterAll_append (env : Environment) (calls calls' : List Call) :
    env.afterAll (calls ++ calls') = (env.afterAll calls).afterAll calls' :=
  List.foldl_append

lemma outer_after (hpush : call ≠ .push) (hpop : call ≠ .pop) :
    (env.after call).outer = env.outer := by
  rcases env.after_cases call with heq | ⟨_, _, _, -, -, -, -, heq⟩ | ⟨hcall, -⟩ |
    ⟨_, _, -, hcall, -⟩
  · rw [heq]
  · rw [heq]
  · exact absurd hcall hpush
  · exact absurd hcall hpop

/-- Closing the innermost scope gives the scopes around it, as they are. -/
lemma after_pop {scope : Scope} {outer : List Scope} (h : env.outer = scope :: outer) :
    env.after .pop = { scope, outer } := by
  simp only [after, perform, pop, h, Except.map]

/-- A scope that is closed again leaves no trace, if what is done inside keeps the scopes around
it. -/
lemma afterAll_push_pop {inside : List Call}
    (h : (env.push.afterAll inside).outer = env.push.outer) (calls : List Call) :
    env.afterAll (.push :: (inside ++ .pop :: calls)) = env.afterAll calls := by
  have hpop : (env.push.afterAll inside).after .pop = env := after_pop h
  calc env.afterAll (.push :: (inside ++ .pop :: calls))
      = env.push.afterAll (inside ++ .pop :: calls) := rfl
    _ = ((env.push.afterAll inside).after .pop).afterAll calls := afterAll_append _ _ _
    _ = env.afterAll calls := by rw [hpop]

/-- Calls that close what they open leave the scopes around the innermost one alone. -/
lemma Balanced.outer_eq {calls : List Call} (h : Balanced calls) (env : Environment) :
    (env.afterAll calls).outer = env.outer := by
  induction h generalizing env with
  | nil => rfl
  | @cons call calls hpush hpop _ ih => exact (ih (env.after call)).trans (outer_after hpush hpop)
  | nested _ _ ihinside ih => rw [afterAll_push_pop (ihinside env.push), ih]

/-! ### The whole -/

lemma lookup_eq_none_iff {name : String} :
    env.lookup name = none ↔ ∀ s ∈ env.scopes, name ∉ s.symbols.map Symbol.name := by
  simp only [lookup, Scope.lookupIn, List.findSome?_eq_none_iff, Scope.lookupLocal_eq_none_iff,
    scopes]

lemma lookup_eq_some_iff {name : String} {x : Symbol} :
    env.lookup name = some x ↔ x.name = name ∧ ∃ inner s outer,
      env.scopes = inner ++ s :: outer ∧ x ∈ s.symbols ∧
        ∀ t ∈ inner, name ∉ t.symbols.map Symbol.name := by
  simp only [lookup, Scope.lookupIn, List.findSome?_eq_some_iff, Scope.lookupLocal_eq_some_iff,
    Scope.lookupLocal_eq_none_iff, scopes]
  constructor
  · rintro ⟨inner, s, outer, hsplit, ⟨hx, hname⟩, hinner⟩
    exact ⟨hname, inner, s, outer, hsplit, hx, hinner⟩
  · rintro ⟨hname, inner, s, outer, hsplit, hx, hinner⟩
    exact ⟨inner, s, outer, hsplit, ⟨hx, hname⟩, hinner⟩

/-- The open scopes are what a stack of maps says, and in good order. -/
structure Refines (env : Environment) (m : MapStack) : Prop where
  toMaps_eq : env.toMaps = m
  /-- Every call answers and goes on, or fails, as it does on the stack. -/
  perform_eq (call : Call) : (env.perform call).map (Prod.map id toMaps) = m.perform call
  /-- The levels count down from the innermost scope to zero. -/
  levels : env.scopes.map Scope.level = (List.range env.scopes.length).reverse
  names_nodup : ∀ s ∈ env.scopes, (s.symbols.map Symbol.name).Nodup
  symbols_level : ∀ s ∈ env.scopes, ∀ x ∈ s.symbols, x.level = s.level
  /-- The types are those that are built in, all of them in the scope of level zero. -/
  types : ∀ s ∈ env.scopes, s.symbols.filter (·.kind = .type) =
    if s.level = 0 then globalScope.symbols else []
  /-- A name is found in the innermost scope that declares it. -/
  lookup_some (name : String) (x : Symbol) : env.lookup name = some x ↔
    x.name = name ∧ ∃ inner s outer, env.scopes = inner ++ s :: outer ∧ x ∈ s.symbols ∧
      ∀ t ∈ inner, name ∉ t.symbols.map Symbol.name
  lookup_none (name : String) : env.lookup name = none ↔
    ∀ s ∈ env.scopes, name ∉ s.symbols.map Symbol.name
  after_failed (call : Call) (f : SemanticFault) (h : env.perform call = .error f) :
    env.after call = env
  /-- A scope that is opened here and closed again leaves everything as it is. -/
  restored (inside : List Call) (h : Balanced inside) :
    env.afterAll (.push :: (inside ++ [.pop])) = env

end Environment

/-- After any calls, also ones that fail, the open scopes are those that a stack of finite maps has
after the same calls. Their levels, their symbols and what is found in them are in order, a call
that fails changes nothing, and a scope that is opened and closed again leaves no trace. -/
theorem open_scopes_refine_maps (calls : List Environment.Call) :
    (Environment.initial.afterAll calls).Refines (MapStack.initial.afterAll calls) := by
  have hnested := Environment.nested_afterAll Environment.nested_initial calls
  have hmaps : (Environment.initial.afterAll calls).toMaps = MapStack.initial.afterAll calls := by
    rw [Environment.toMaps_afterAll Environment.nested_initial, Environment.toMaps_initial]
  exact {
    toMaps_eq := hmaps
    perform_eq := fun call => hmaps ▸ Environment.perform_toMaps hnested call
    levels := hnested.map_level
    names_nodup := fun s _ => s.nodup
    symbols_level := fun s hs => (hnested.atLevel_of_mem hs).symbols_level
    types := fun s hs => (hnested.atLevel_of_mem hs).types
    lookup_some := fun _ _ => Environment.lookup_eq_some_iff
    lookup_none := fun _ => Environment.lookup_eq_none_iff
    after_failed := fun call f h => by rw [Environment.after, h]
    restored := fun inside h => Environment.afterAll_push_pop (h.outer_eq _) [] }

theorem shadowed_name_restored :
    (Environment.initial.afterAll [.declare "س" .integer, .push, .declare "س" .real]).lookup "س" =
      some { name := "س", type := .real, level := 1 } ∧
    (Environment.initial.afterAll [.declare "س" .integer]).afterAll
        (.push :: ([.declare "س" .real, .push, .declare "س" .char, .declare "س" .list, .pop] ++
          [.pop])) =
      Environment.initial.afterAll [.declare "س" .integer] ∧
    (Environment.initial.afterAll [.declare "س" .integer]).lookup "س" =
      some { name := "س", type := .integer, level := 0 } := by
  -- the inner scope holds a declaration and another scope, in which one declaration fails
  have hinside : Environment.Balanced [.declare "س" .char, .declare "س" .list] :=
    .cons (by simp) (by simp) (.cons (by simp) (by simp) .nil)
  refine ⟨by decide, ?_, by decide⟩
  exact (open_scopes_refine_maps [.declare "س" .integer]).restored _
    (.cons (by simp) (by simp) (.nested hinside .nil))

end Barnamaj
