import Barnamaj.Proofs.Symbol.OpenScopes

/-!
# Names of types

Types and variables share one name space, so that a variable can hide a type. Only the names of the
built-in types can be hidden, because no other symbol is a type, and only by an inner scope, because
the global one keeps these names to itself (`Environment.Shadows`). Everything else that is declared
leaves what a type name stands for as it is at the start.
-/

namespace Barnamaj

/-- The type that a symbol stands for, unless it is a variable. -/
def Symbol.type? (x : Symbol) : Option DataType :=
  match x.kind with
  | .type => some x.type
  | .var => none

/-- An open scope inside the global one declares the name as a variable. -/
def Environment.Shadows (env : Environment) (name : String) : Prop :=
  ∃ s ∈ env.scopes, 1 ≤ s.level ∧ ∃ x ∈ s.symbols, x.name = name ∧ x.kind = .var

instance (env : Environment) (name : String) : Decidable (env.Shadows name) :=
  inferInstanceAs (Decidable (∃ s ∈ env.scopes, _))

/-! ### Tables -/

namespace DataType

lemma ofName?_name (type : DataType) : ofName? type.name = some type := by
  cases type <;> decide

/-- No built-in name spells the own name of a type. -/
lemma ofName?_capitals_of_builtin {name : String} (h : name ∈ builtin.map Prod.fst) :
    ofName? (Text.capitals name) = none := by
  have htable : ∀ x ∈ builtin.map Prod.fst, ofName? (Text.capitals x) = none := by decide +kernel
  exact htable name h

end DataType

lemma Environment.mem_symbols_globalScope_iff {x : Symbol} :
    x ∈ globalScope.symbols ↔ ∃ name type, (name, type) ∈ DataType.builtin ∧
      x = { name, type, level := 0, kind := .type } := by
  simp only [globalScope, List.mem_map, Prod.exists, eq_comm (b := x)]

/-! ### Scopes -/

namespace Scope

variable {s : Scope} {x : Symbol} {name : String} {type : DataType} {level : ℕ}

/-- Inside the global scope there are only variables. -/
lemma AtLevel.kind_eq_var (h : s.AtLevel level) (hl : level ≠ 0) (hx : x ∈ s.symbols) :
    x.kind = .var := by
  have htypes := h.types
  rw [if_neg hl, List.filter_eq_nil_iff] at htypes
  have hkind : x.kind ≠ .type := by simpa using htypes x hx
  cases hk : x.kind with
  | type => exact absurd hk hkind
  | var => rfl

/-- The types of the global scope are those that are built in. -/
lemma AtLevel.mem_globalScope_iff (h : s.AtLevel 0) :
    x ∈ Environment.globalScope.symbols ↔ x ∈ s.symbols ∧ x.kind = .type := by
  have htypes := h.types
  rw [if_pos rfl] at htypes
  rw [← htypes, List.mem_filter, decide_eq_true_iff]

lemma AtLevel.type?_lookupLocal (h : s.AtLevel 0) :
    (s.lookupLocal name).bind Symbol.type? = some type ↔ (name, type) ∈ DataType.builtin := by
  constructor
  · intro hfound
    obtain ⟨x, hx, htype⟩ := Option.bind_eq_some_iff.mp hfound
    obtain ⟨hmem, hname⟩ := lookupLocal_eq_some_iff.mp hx
    cases hk : x.kind with
    | var =>
      simp only [Symbol.type?, hk] at htype
      cases htype
    | type =>
      simp only [Symbol.type?, hk, Option.some.injEq] at htype
      obtain ⟨name', type', hbuiltin, rfl⟩ :=
        Environment.mem_symbols_globalScope_iff.mp (h.mem_globalScope_iff.mpr ⟨hmem, hk⟩)
      subst hname htype
      exact hbuiltin
  · intro hbuiltin
    have hglobal := Environment.mem_symbols_globalScope_iff.mpr ⟨name, type, hbuiltin, rfl⟩
    have hlookup := lookupLocal_eq_some_iff.mpr ⟨(h.mem_globalScope_iff.mp hglobal).1, rfl⟩
    rw [hlookup]
    rfl

/-- A name is found to be a type if it is built in and no scope inside the global one has it. -/
lemma Nested.type?_lookupIn {scopes : List Scope} (h : Nested scopes) (hne : scopes ≠ []) :
    (lookupIn scopes name).bind Symbol.type? = some type ↔
      (name, type) ∈ DataType.builtin ∧
        ¬ ∃ s ∈ scopes, 1 ≤ s.level ∧ ∃ x ∈ s.symbols, x.name = name ∧ x.kind = .var := by
  induction scopes with
  | nil => exact absurd rfl hne
  | cons s outer ih =>
    obtain ⟨hs, houter⟩ := h
    rw [lookupIn, List.findSome?_cons]
    cases outer with
    | nil =>
      have hlevel : s.level = 0 := hs.level_eq
      have hglobal : (s.lookupLocal name).bind Symbol.type? = some type ↔
          (name, type) ∈ DataType.builtin := hs.type?_lookupLocal
      cases hx : s.lookupLocal name <;> simpa [hx, hlevel] using hglobal
    | cons t outer =>
      have hlevel : s.level ≠ 0 := by simp [hs.level_eq]
      have hvar : ∀ x ∈ s.symbols, x.kind = .var := fun x => hs.kind_eq_var (by simp)
      cases hx : s.lookupLocal name with
      | none =>
        -- this scope does not have the name, so all is decided further out
        have hnone := lookupLocal_eq_none_iff.mp hx
        rw [List.exists_mem_cons_iff, or_iff_right ?_]
        · exact ih houter (List.cons_ne_nil t outer)
        · rintro ⟨-, y, hy, rfl, -⟩
          exact hnone (List.mem_map_of_mem hy)
      | some x =>
        obtain ⟨hmem, hname⟩ := lookupLocal_eq_some_iff.mp hx
        have htype : Symbol.type? x = none := by simp only [Symbol.type?, hvar x hmem]
        simp only [Option.bind_some, htype, reduceCtorEq, false_iff, not_and, not_not]
        intro _
        exact ⟨s, List.mem_cons_self, Nat.one_le_iff_ne_zero.mpr hlevel, x, hmem, hname,
          hvar x hmem⟩

end Scope

/-! ### Open scopes -/

namespace Environment

variable {env : Environment} {name : String}

/-- A type name stands for the type that is found under it, or else for the type whose own name it
spells. -/
lemma resolveType_eq (env : Environment) (name : String) :
    env.resolveType name =
      match (env.lookup name).bind Symbol.type?, DataType.ofName? (Text.capitals name) with
      | some type, _ => .ok type
      | none, some type => .ok type
      | none, none => .error (.unknownType name) := by
  rw [resolveType]
  cases hx : env.lookup name with
  | none => cases DataType.ofName? (Text.capitals name) <;> rfl
  | some x =>
    cases hk : x.kind with
    | type => simp [Symbol.type?, hk]
    | var => cases DataType.ofName? (Text.capitals name) <;> simp [Symbol.type?, hk]

lemma type?_lookup (h : Scope.Nested env.scopes) {type : DataType} :
    (env.lookup name).bind Symbol.type? = some type ↔
      (name, type) ∈ DataType.builtin ∧ ¬ env.Shadows name :=
  h.type?_lookupIn (List.cons_ne_nil _ _)

lemma not_shadows_initial (name : String) : ¬ initial.Shadows name := by
  rintro ⟨s, hs, hlevel, -⟩
  obtain rfl : s = globalScope := by simpa [initial, scopes] using hs
  simp [globalScope] at hlevel

lemma resolveType_of_shadows (h : Scope.Nested env.scopes)
    (hname : name ∈ DataType.builtin.map Prod.fst) (hs : env.Shadows name) :
    env.resolveType name = .error (.unknownType name) := by
  have hnone : (env.lookup name).bind Symbol.type? = none := by
    rw [Option.eq_none_iff_forall_ne_some]
    intro type htype
    exact ((type?_lookup h).mp htype).2 hs
  rw [resolveType_eq, hnone, DataType.ofName?_capitals_of_builtin hname]

lemma resolveType_of_not_shadows (h : Scope.Nested env.scopes)
    (hs : ¬ (name ∈ DataType.builtin.map Prod.fst ∧ env.Shadows name)) :
    env.resolveType name = initial.resolveType name := by
  have hsame : (env.lookup name).bind Symbol.type? = (initial.lookup name).bind Symbol.type? := by
    apply Option.ext
    intro type
    rw [type?_lookup h, type?_lookup nested_initial]
    refine and_congr_right fun hbuiltin => ?_
    have hname : name ∈ DataType.builtin.map Prod.fst := List.mem_map_of_mem hbuiltin
    exact iff_of_true (fun hshadow => hs ⟨hname, hshadow⟩) (not_shadows_initial name)
  rw [resolveType_eq, resolveType_eq, hsame]

/-- The own name of a type is never hidden, in whatever letters it is written. -/
lemma resolveType_of_capitals (h : Scope.Nested env.scopes) {type : DataType}
    (hname : Text.capitals name = type.name) : env.resolveType name = .ok type := by
  have hown : DataType.ofName? (Text.capitals name) = some type := by
    rw [hname, DataType.ofName?_name]
  have hnone : (env.lookup name).bind Symbol.type? = none := by
    rw [Option.eq_none_iff_forall_ne_some]
    intro type' htype
    have hbuiltin := List.mem_map_of_mem (f := Prod.fst) ((type?_lookup h).mp htype).1
    rw [DataType.ofName?_capitals_of_builtin hbuiltin] at hown
    cases hown
  rw [resolveType_eq, hnone, hown]

end Environment

/-- After any calls, also ones that fail, a name stands for the same type as at the start, or the
same fault is reported. The one exception is a built-in name that an open scope inside the global
one declares as a variable: it is reported as the name of no type. The own names of the types, in
whatever letters they are written, always stand for these types. -/
theorem resolveType_after_calls (calls : List Environment.Call) (name : String) :
    (Environment.initial.afterAll calls).resolveType name =
      (if name ∈ DataType.builtin.map Prod.fst ∧ (Environment.initial.afterAll calls).Shadows name
        then .error (.unknownType name) else Environment.initial.resolveType name) ∧
    (SemanticFault.unknownType name).diagnostic.origin = .semantic ∧
    ∀ type : DataType, Text.capitals name = type.name →
      (Environment.initial.afterAll calls).resolveType name = .ok type ∧
        Environment.initial.resolveType name = .ok type := by
  have hnested := Environment.nested_afterAll Environment.nested_initial calls
  refine ⟨?_, rfl, fun type htype => ⟨Environment.resolveType_of_capitals hnested htype,
    Environment.resolveType_of_capitals Environment.nested_initial htype⟩⟩
  by_cases hs : name ∈ DataType.builtin.map Prod.fst ∧
      (Environment.initial.afterAll calls).Shadows name
  · rw [if_pos hs]
    exact Environment.resolveType_of_shadows hnested hs.1 hs.2
  · rw [if_neg hs]
    exact Environment.resolveType_of_not_shadows hnested hs

theorem hidden_type_found_again :
    (Environment.initial.afterAll [.push, .declare "صحيح" .real, .push,
        .declare "Real" .char]).resolveType "صحيح" = .error (.unknownType "صحيح") ∧
    (Environment.initial.afterAll [.push, .declare "صحيح" .real, .push,
        .declare "Real" .char]).resolveType "Real" = .ok .real ∧
    (Environment.initial.afterAll [.push, .declare "صحيح" .real, .push, .declare "Real" .char,
        .pop, .pop, .pop, .declare "صحيح" .real]).resolveType "صحيح" = .ok .integer := by
  refine ⟨?_, ?_, ?_⟩
  · rw [(resolveType_after_calls _ "صحيح").1, if_pos (by decide +kernel)]
  · exact ((resolveType_after_calls _ "Real").2.2 .real (by decide +kernel)).1
  · -- the last call fails, because the global scope has the name already
    rw [(resolveType_after_calls _ "صحيح").1, if_neg (by decide +kernel)]
    rfl

end Barnamaj
