import Barnamaj.Proofs.Symbol.TypeNames
import Mathlib.Data.List.DropRight

/-!
# Declarations in words

The text of a declaration is cut at its first colon (`Declarations.Cut`), and blanks around both
parts do not count (`Text.Trims`). The first part is a name, the second one a type name, which may
be missing. A list of such texts is read from left to right up to the first one that declares
nothing. Names stand in the order of their first occurrence, with the types of their last one. Any
map of names can be written down in this way.
-/

namespace Barnamaj

/-! ### Blanks around a text -/

namespace Text

/-- The second text is the first one without the blanks at both ends. -/
structure Trims (cs core : List Char) : Prop where
  exists_blanks : ∃ front back, cs = front ++ (core ++ back) ∧
    (∀ c ∈ front, isBlank c = true) ∧ ∀ c ∈ back, isBlank c = true
  head : ∀ c ∈ core.head?, isBlank c = false
  last : ∀ c ∈ core.getLast?, isBlank c = false

variable {cs core front back : List Char}

lemma dropWhile_append_of_blank (hfront : ∀ c ∈ front, isBlank c = true)
    (hhead : ∀ c ∈ core.head?, isBlank c = false) :
    (front ++ core).dropWhile isBlank = core := by
  rw [List.dropWhile_append_of_pos hfront]
  cases core with
  | nil => rfl
  | cons c core => exact List.dropWhile_cons_of_neg (by simp [hhead c rfl])

lemma isBlank_head?_dropWhile (cs : List Char) :
    ∀ c ∈ (cs.dropWhile isBlank).head?, isBlank c = false := by
  intro c hc
  have h := List.head?_dropWhile_not isBlank cs
  rw [Option.mem_def] at hc
  rwa [hc] at h

lemma trims_trimBlanks (cs : List Char) : Trims cs (trimBlanks cs) := by
  obtain ⟨back, hback⟩ : ∃ back, back = (cs.dropWhile isBlank).reverse.takeWhile isBlank := ⟨_, rfl⟩
  have hmid : cs.dropWhile isBlank = trimBlanks cs ++ back.reverse := by
    rw [trimBlanks, ← List.reverse_append, hback, List.takeWhile_append_dropWhile,
      List.reverse_reverse]
  refine ⟨⟨cs.takeWhile isBlank, back.reverse, ?_, ?_, ?_⟩, ?_, ?_⟩
  · rw [← hmid, List.takeWhile_append_dropWhile]
  · intro c hc
    exact List.mem_takeWhile_imp hc
  · intro c hc
    rw [List.mem_reverse, hback] at hc
    exact List.mem_takeWhile_imp hc
  · intro c hc
    have hhead := isBlank_head?_dropWhile cs c
    rw [hmid, List.head?_append, Option.mem_def.mp hc] at hhead
    exact hhead rfl
  · rw [trimBlanks, List.getLast?_reverse]
    exact isBlank_head?_dropWhile _

/-- What is left without the blanks at both ends is determined by the text. -/
lemma trimBlanks_eq_iff : trimBlanks cs = core ↔ Trims cs core := by
  constructor
  · rintro rfl
    exact trims_trimBlanks cs
  · rintro ⟨⟨front, back, rfl, hfront, hback⟩, hhead, hlast⟩
    by_cases hcore : core = []
    · subst hcore
      have hblank : ∀ c ∈ front ++ ([] ++ back), isBlank c = true := by
        intro c hc
        rcases List.mem_append.mp hc with hc | hc
        · exact hfront c hc
        · exact hback c hc
      rw [trimBlanks, List.dropWhile_eq_nil_iff.mpr hblank]
      rfl
    · have hhead' : ∀ c ∈ (core ++ back).head?, isBlank c = false := by
        rwa [List.head?_append_of_ne_nil core hcore]
      rw [trimBlanks, dropWhile_append_of_blank hfront hhead', List.reverse_append,
        dropWhile_append_of_blank, List.reverse_reverse]
      · intro c hc
        exact hback c (List.mem_reverse.mp hc)
      · rwa [List.head?_reverse]

end Text

/-! ### Type names -/

/-- The name stands for the type: it is its built-in name, or spells its own name in any letter
case. -/
def DataType.Named (name : String) (type : DataType) : Prop :=
  (name, type) ∈ builtin ∨ Text.capitals name = type.name

lemma DataType.ofName?_eq_some_iff {name : String} {type : DataType} :
    ofName? name = some type ↔ name = type.name := by
  constructor
  · intro h
    have hname := List.find?_some h
    exact (beq_iff_eq.mp hname).symm
  · rintro rfl
    exact ofName?_name type

namespace Environment

variable {name : String}

/-- At the start, a name is resolved to the type that it stands for. -/
lemma resolveType_initial_of_named {type : DataType} (h : DataType.Named name type) :
    initial.resolveType name = .ok type := by
  rcases h with h | h
  · have hlookup := (type?_lookup nested_initial).mpr ⟨h, not_shadows_initial name⟩
    rw [resolveType_eq, hlookup]
  · exact resolveType_of_capitals nested_initial h

lemma resolveType_initial_of_not_named (h : ∀ type, ¬ DataType.Named name type) :
    initial.resolveType name = .error (.unknownType name) := by
  have hlookup : (initial.lookup name).bind Symbol.type? = none := by
    rw [Option.eq_none_iff_forall_ne_some]
    intro type htype
    exact h type (Or.inl ((type?_lookup nested_initial).mp htype).1)
  have hown : DataType.ofName? (Text.capitals name) = none := by
    rw [Option.eq_none_iff_forall_ne_some]
    intro type htype
    exact h type (Or.inr (DataType.ofName?_eq_some_iff.mp htype))
  rw [resolveType_eq, hlookup, hown]

end Environment

namespace Declarations

open Text

/-! ### Single texts -/

/-- The text is cut at its first colon; without one, nothing is behind it. -/
inductive Cut : List Char → List Char → List Char → Prop where
  | whole {cs : List Char} (h : ':' ∉ cs) : Cut cs cs []
  | colon {front : List Char} (back : List Char) (h : ':' ∉ front) :
      Cut (front ++ ':' :: back) front back

/-- The text declares the name with the type, which is that of whole numbers if none is given. -/
inductive Declares (spec : String) : String × DataType → Prop where
  | untyped {front back name : List Char} (hcut : Cut spec.toList front back)
      (hname : Trims front name) (hne : name ≠ []) (htype : Trims back []) :
      Declares spec (String.ofList name, .integer)
  | typed {front back name typeName : List Char} {type : DataType}
      (hcut : Cut spec.toList front back) (hname : Trims front name) (hne : name ≠ [])
      (htype : Trims back typeName) (htne : typeName ≠ [])
      (h : DataType.Named (String.ofList typeName) type) :
      Declares spec (String.ofList name, type)

/-- The text declares nothing: its name is blank, or something is given for a type that names
none. -/
def Malformed (spec : String) : Prop :=
  ∃ front back, Cut spec.toList front back ∧ (Trims front [] ∨
    ∃ typeName, Trims back typeName ∧ typeName ≠ [] ∧
      ∀ type, ¬ DataType.Named (String.ofList typeName) type)

/-- The fault of a text that declares nothing. A blank name comes first. -/
inductive Faulty (spec : String) : Fault → Prop where
  | blankName {front back : List Char} (hcut : Cut spec.toList front back)
      (hname : Trims front []) : Faulty spec (.blankName spec)
  | unknownType {front back name typeName : List Char} (hcut : Cut spec.toList front back)
      (hname : Trims front name) (hne : name ≠ []) (htype : Trims back typeName)
      (htne : typeName ≠ []) (h : ∀ type, ¬ DataType.Named (String.ofList typeName) type) :
      Faulty spec (.semantic (.unknownType (String.ofList typeName)))

variable {spec : String} {cs front back name typeName : List Char} {entry : String × DataType}
  {f : Fault}

lemma exists_cut (cs : List Char) : ∃ front back, Cut cs front back := by
  by_cases h : ':' ∈ cs
  · obtain ⟨front, back, rfl, hfront⟩ := List.eq_append_cons_of_mem h
    exact ⟨front, back, .colon back hfront⟩
  · exact ⟨cs, [], .whole h⟩

/-- The part in front of the first colon and the part behind it, as they are looked for. -/
lemma Cut.eq (h : Cut cs front back) :
    cs.takeWhile (· != ':') = front ∧ (cs.dropWhile (· != ':')).drop 1 = back := by
  have hne : ∀ {cs : List Char}, ':' ∉ cs → ∀ c ∈ cs, (c != ':') = true := by
    intro cs h c hc
    rw [bne_iff_ne]
    exact ne_of_mem_of_not_mem hc h
  cases h with
  | whole h =>
    rw [List.takeWhile_eq_self_iff.mpr (hne h), List.dropWhile_eq_nil_iff.mpr (hne h)]
    exact ⟨rfl, rfl⟩
  | colon _ h =>
    rw [List.takeWhile_append_of_pos (hne h), List.dropWhile_append_of_pos (hne h)]
    simp

lemma ofSpec_eq (hcut : Cut spec.toList front back) (hname : Trims front name)
    (htype : Trims back typeName) :
    ofSpec spec =
      if name = [] then .error (.blankName spec)
      else if typeName = [] then .ok (String.ofList name, .integer)
      else
        match Environment.initial.resolveType (String.ofList typeName) with
        | .ok t => .ok (String.ofList name, t)
        | .error f => .error (.semantic f) := by
  obtain ⟨hfront, hback⟩ := hcut.eq
  simp only [ofSpec, hfront, hback, trimBlanks_eq_iff.mpr hname, trimBlanks_eq_iff.mpr htype,
    List.isEmpty_iff]
  rfl

lemma ofSpec_of_declares (h : Declares spec entry) : ofSpec spec = .ok entry := by
  cases h with
  | untyped hcut hname hne htype => rw [ofSpec_eq hcut hname htype, if_neg hne, if_pos rfl]
  | typed hcut hname hne htype htne h =>
    rw [ofSpec_eq hcut hname htype, if_neg hne, if_neg htne,
      Environment.resolveType_initial_of_named h]

lemma ofSpec_of_faulty (h : Faulty spec f) : ofSpec spec = .error f := by
  cases h with
  | @blankName _ back hcut hname =>
    rw [ofSpec_eq hcut hname (trims_trimBlanks back), if_pos rfl]
  | unknownType hcut hname hne htype htne h =>
    rw [ofSpec_eq hcut hname htype, if_neg hne, if_neg htne,
      Environment.resolveType_initial_of_not_named h]

lemma declares_or_faulty (spec : String) :
    (∃ entry, Declares spec entry) ∨ ∃ f, Faulty spec f := by
  obtain ⟨front, back, hcut⟩ := exists_cut spec.toList
  have hname := trims_trimBlanks front
  have htype := trims_trimBlanks back
  by_cases hne : trimBlanks front = []
  · rw [hne] at hname
    exact Or.inr ⟨_, .blankName hcut hname⟩
  by_cases htne : trimBlanks back = []
  · rw [htne] at htype
    exact Or.inl ⟨_, .untyped hcut hname hne htype⟩
  by_cases h : ∃ type, DataType.Named (String.ofList (trimBlanks back)) type
  · obtain ⟨type, h⟩ := h
    exact Or.inl ⟨_, .typed hcut hname hne htype htne h⟩
  · rw [not_exists] at h
    exact Or.inr ⟨_, .unknownType hcut hname hne htype htne h⟩

lemma malformed_iff : Malformed spec ↔ ∃ f, Faulty spec f := by
  constructor
  · rintro ⟨front, back, hcut, hname | ⟨typeName, htype, htne, h⟩⟩
    · exact ⟨_, .blankName hcut hname⟩
    · have hname := trims_trimBlanks front
      by_cases hne : trimBlanks front = []
      · rw [hne] at hname
        exact ⟨_, .blankName hcut hname⟩
      · exact ⟨_, .unknownType hcut hname hne htype htne h⟩
  · rintro ⟨f, h⟩
    cases h with
    | blankName hcut hname => exact ⟨_, _, hcut, Or.inl hname⟩
    | unknownType hcut _ _ htype htne h => exact ⟨_, _, hcut, Or.inr ⟨_, htype, htne, h⟩⟩

lemma Declares.not_malformed (hd : Declares spec entry) : ¬ Malformed spec := by
  intro h
  obtain ⟨f, hf⟩ := malformed_iff.mp h
  have hboth := (ofSpec_of_declares hd).symm.trans (ofSpec_of_faulty hf)
  cases hboth

/-! ### Maps -/

variable {d : Declarations} {entries : List (String × DataType)} {specs : List String}

lemma lookup_cons (key : String) (type : DataType) (d : List (String × DataType)) (x : String) :
    ((key, type) :: d).lookup x = if x = key then some type else d.lookup x := by
  rw [List.lookup_cons]
  split
  · next hx => rw [if_pos (beq_iff_eq.mp hx)]
  · next hx => rw [if_neg (beq_eq_false_iff_ne.mp hx)]

lemma lookup_insert (d : Declarations) (name : String) (type : DataType) (x : String) :
    (d.insert name type).lookup x = if x = name then some type else d.lookup x := by
  induction d with
  | nil => exact lookup_cons name type [] x
  | cons entry d ih =>
    obtain ⟨key, old⟩ := entry
    rw [insert]
    by_cases hkey : key = name
    · subst hkey
      rw [if_pos rfl, lookup_cons, lookup_cons]
      split <;> rfl
    · rw [if_neg hkey, lookup_cons, lookup_cons, ih]
      by_cases hx : x = key
      · rw [if_pos hx, if_neg (hx ▸ hkey), if_pos hx]
      · rw [if_neg hx, if_neg hx]

lemma ofEntries_concat (entries : List (String × DataType)) (name : String) (type : DataType) :
    ofEntries (entries ++ [(name, type)]) = (ofEntries entries).insert name type :=
  List.foldl_concat ..

/-- The names stand in the order of their first occurrence. -/
lemma keys_ofEntries (entries : List (String × DataType)) :
    (ofEntries entries).keys = (entries.map Prod.fst).eraseDups := by
  induction entries using List.reverseRecOn with
  | nil => rfl
  | append_singleton entries entry ih =>
    obtain ⟨name, type⟩ := entry
    rw [ofEntries_concat, List.map_append, List.map_singleton, List.eraseDups_append, ← ih]
    by_cases hmem : name ∈ (ofEntries entries).keys
    · have hold : name ∈ entries.map Prod.fst := by rwa [ih, List.mem_eraseDups] at hmem
      rw [keys_insert_of_mem hmem, List.removeAll, List.filter_cons_of_neg (by simpa using hold)]
      simp
    · have hnew : name ∉ entries.map Prod.fst := by rwa [ih, List.mem_eraseDups] at hmem
      rw [keys_insert_of_notMem hmem, List.removeAll, List.filter_cons_of_pos (by simpa using hnew)]
      simp [List.eraseDups_cons]

/-- A name has the type of its last occurrence. -/
lemma lookup_ofEntries (entries : List (String × DataType)) (x : String) :
    (ofEntries entries).lookup x = entries.reverse.lookup x := by
  induction entries using List.reverseRecOn with
  | nil => rfl
  | append_singleton entries entry ih =>
    obtain ⟨name, type⟩ := entry
    rw [ofEntries_concat, lookup_insert, ih, List.reverse_append, List.reverse_singleton,
      List.singleton_append, lookup_cons]

lemma insert_of_notMem {name : String} (h : name ∉ d.keys) (type : DataType) :
    d.insert name type = d ++ [(name, type)] := by
  induction d with
  | nil => rfl
  | cons entry d ih =>
    obtain ⟨key, old⟩ := entry
    rw [keys_cons, List.mem_cons, not_or] at h
    rw [insert, if_neg (Ne.symm h.1), ih h.2, List.cons_append]

/-- Entries without a name twice are a map as they stand. -/
lemma ofEntries_of_nodup (h : d.keys.Nodup) : ofEntries d = d := by
  induction d using List.reverseRecOn with
  | nil => rfl
  | append_singleton d entry ih =>
    obtain ⟨name, type⟩ := entry
    rw [keys, List.map_append, List.nodup_append] at h
    have hnew : name ∉ keys d := by
      intro hmem
      exact h.2.2 name hmem name (by simp) rfl
    rw [ofEntries_concat, ih h.1, insert_of_notMem hnew]

/-! ### Lists of texts -/

lemma mapM_ofSpec_cons (spec : String) (specs : List String) :
    (spec :: specs).mapM ofSpec =
      match ofSpec spec with
      | .error f => .error f
      | .ok entry => (specs.mapM ofSpec).map (entry :: ·) := by
  rw [List.mapM_cons]
  cases ofSpec spec with
  | error f => rfl
  | ok entry => cases specs.mapM ofSpec <;> rfl

lemma mapM_ofSpec_of_forall₂ (h : List.Forall₂ Declares specs entries) :
    specs.mapM ofSpec = .ok entries := by
  induction h with
  | nil => rfl
  | cons hd _ ih =>
    rw [mapM_ofSpec_cons, ofSpec_of_declares hd, ih]
    rfl

/-- Texts are read up to the first one that declares nothing. -/
lemma mapM_ofSpec_cases (specs : List String) :
    (∃ entries, List.Forall₂ Declares specs entries ∧ (∀ s ∈ specs, ¬ Malformed s) ∧
        specs.mapM ofSpec = .ok entries) ∨
      ∃ before spec after f, specs = before ++ spec :: after ∧ (∀ s ∈ before, ¬ Malformed s) ∧
        Faulty spec f ∧ specs.mapM ofSpec = .error f := by
  induction specs with
  | nil => exact Or.inl ⟨[], .nil, by simp, rfl⟩
  | cons spec specs ih =>
    rw [mapM_ofSpec_cons]
    rcases declares_or_faulty spec with ⟨entry, hd⟩ | ⟨f, hf⟩
    · rw [ofSpec_of_declares hd]
      rcases ih with ⟨entries, hall, hwell, heq⟩ | ⟨before, s, after, f, rfl, hbefore, hf, heq⟩
      · refine Or.inl ⟨entry :: entries, .cons hd hall, ?_, by rw [heq]; rfl⟩
        exact List.forall_mem_cons.mpr ⟨hd.not_malformed, hwell⟩
      · refine Or.inr ⟨spec :: before, s, after, f, rfl, ?_, hf, by rw [heq]; rfl⟩
        exact List.forall_mem_cons.mpr ⟨hd.not_malformed, hbefore⟩
    · rw [ofSpec_of_faulty hf]
      exact Or.inr ⟨[], spec, specs, f, rfl, by simp, hf, rfl⟩

/-! ### Writing a map down -/

/-- The text spells an entry: a name and a type name with a colon between them, and any blanks
around both. -/
def Spells (spec : String) (entry : String × DataType) : Prop :=
  ∃ (front behind before back : List Char) (typeName : String),
    spec.toList =
      front ++ (entry.1.toList ++ behind) ++ ':' :: (before ++ (typeName.toList ++ back)) ∧
    (∀ blanks ∈ [front, behind, before, back], ∀ c ∈ blanks, isBlank c = true) ∧
    (typeName = entry.2.name ∨ (typeName, entry.2) ∈ DataType.builtin)

/-- The names of types have no blanks around them, and stand for these types. -/
lemma named_of_written {typeName : String} {type : DataType}
    (h : typeName = type.name ∨ (typeName, type) ∈ DataType.builtin) :
    trimBlanks typeName.toList = typeName.toList ∧ typeName.toList ≠ [] ∧
      DataType.Named typeName type := by
  rcases h with rfl | h
  · have hown : trimBlanks type.name.toList = type.name.toList ∧ type.name.toList ≠ [] ∧
        capitals type.name = type.name := by
      cases type <;> decide +kernel
    exact ⟨hown.1, hown.2.1, Or.inr hown.2.2⟩
  · have htable : ∀ entry ∈ DataType.builtin,
        trimBlanks entry.1.toList = entry.1.toList ∧ entry.1.toList ≠ [] := by
      decide +kernel
    exact ⟨(htable _ h).1, (htable _ h).2, Or.inl h⟩

/-- Blanks around a text that has none itself are trimmed away. -/
lemma trims_of_blanks (h : trimBlanks cs = cs) (hfront : ∀ c ∈ front, isBlank c = true)
    (hback : ∀ c ∈ back, isBlank c = true) : Trims (front ++ (cs ++ back)) cs := by
  have hcs := trimBlanks_eq_iff.mp h
  exact ⟨⟨front, back, rfl, hfront, hback⟩, hcs.head, hcs.last⟩

lemma Spells.declares (h : Spells spec entry) (hne : entry.1 ≠ "")
    (htrim : trimBlanks entry.1.toList = entry.1.toList) (hcolon : ':' ∉ entry.1.toList) :
    Declares spec entry := by
  obtain ⟨front, behind, before, back, typeName, hspec, hblanks, hwritten⟩ := h
  simp only [List.forall_mem_cons] at hblanks
  obtain ⟨hfront, hbehind, hbefore, hback, -⟩ := hblanks
  obtain ⟨htype, htne, hnamed⟩ := named_of_written hwritten
  have hblank : isBlank ':' = false := by decide
  have hcut : Cut spec.toList (front ++ (entry.1.toList ++ behind))
      (before ++ (typeName.toList ++ back)) := by
    rw [hspec]
    apply Cut.colon
    simp only [List.mem_append, not_or]
    refine ⟨?_, hcolon, ?_⟩
    · intro h
      rw [hfront ':' h] at hblank
      cases hblank
    · intro h
      rw [hbehind ':' h] at hblank
      cases hblank
  have hdeclares := Declares.typed hcut (trims_of_blanks htrim hfront hbehind)
    (by simpa using hne) (trims_of_blanks htype hbefore hback) htne
    (by rwa [String.ofList_toList])
  rwa [String.ofList_toList] at hdeclares

lemma forall₂_declares (h : List.Forall₂ Spells specs d)
    (hnames : ∀ name ∈ d.keys,
      name ≠ "" ∧ trimBlanks name.toList = name.toList ∧ ':' ∉ name.toList) :
    List.Forall₂ Declares specs d := by
  induction h with
  | nil => exact .nil
  | @cons spec entry specs d hspec _ ih =>
    obtain ⟨name, type⟩ := entry
    rw [keys_cons, List.forall_mem_cons] at hnames
    obtain ⟨⟨hne, htrim, hcolon⟩, hnames⟩ := hnames
    exact .cons (hspec.declares hne htrim hcolon) (ih hnames)

/-- Declarations in words are read completely and in order. They fail exactly if one of them has a
blank name, or something for a type that names none, and then the fault is that of the first such
one. Otherwise the names are declared in the order of their first occurrence, each with the type of
its last one, which is that of whole numbers if none was given. So any map of names without colons
and without blanks around them, written down with type names of either kind and with any blanks
around names and types, is read back as it is. -/
theorem specs_read_completely_in_order (specs : List String) :
    ((∃ f, ofSpecs specs = .error f) ↔ ∃ spec ∈ specs, Malformed spec) ∧
    (∀ f, ofSpecs specs = .error f →
      ∃ before spec after, specs = before ++ spec :: after ∧
        (∀ s ∈ before, ¬ Malformed s) ∧ Malformed spec ∧ Faulty spec f) ∧
    (∀ d, ofSpecs specs = .ok d →
      ∃ entries, List.Forall₂ Declares specs entries ∧
        d.keys = (entries.map Prod.fst).eraseDups ∧
        ∀ name, d.lookup name = entries.reverse.lookup name) ∧
    ∀ d : Declarations, d.keys.Nodup →
      (∀ name ∈ d.keys, name ≠ "" ∧ trimBlanks name.toList = name.toList ∧ ':' ∉ name.toList) →
      List.Forall₂ Spells specs d → ofSpecs specs = .ok d := by
  have hsplit : ∀ f, ofSpecs specs = .error f →
      ∃ before spec after, specs = before ++ spec :: after ∧
        (∀ s ∈ before, ¬ Malformed s) ∧ Malformed spec ∧ Faulty spec f := by
    intro f h
    rcases mapM_ofSpec_cases specs with
      ⟨entries, -, -, heq⟩ | ⟨before, spec, after, f', h', hbefore, hf, heq⟩
    · rw [ofSpecs, heq] at h
      cases h
    · rw [ofSpecs, heq] at h
      cases h
      exact ⟨before, spec, after, h', hbefore, malformed_iff.mpr ⟨_, hf⟩, hf⟩
  refine ⟨⟨?_, ?_⟩, hsplit, ?_, ?_⟩
  · rintro ⟨f, h⟩
    obtain ⟨before, spec, after, rfl, -, hspec, -⟩ := hsplit f h
    exact ⟨spec, by simp, hspec⟩
  · rintro ⟨spec, hmem, hspec⟩
    rcases mapM_ofSpec_cases specs with ⟨entries, -, hwell, -⟩ | ⟨_, _, _, f, -, -, -, heq⟩
    · exact absurd hspec (hwell spec hmem)
    · exact ⟨f, by rw [ofSpecs, heq]; rfl⟩
  · intro d h
    rcases mapM_ofSpec_cases specs with ⟨entries, hall, -, heq⟩ | ⟨_, _, _, f, -, -, -, heq⟩
    · rw [ofSpecs, heq] at h
      cases h
      exact ⟨entries, hall, keys_ofEntries entries, lookup_ofEntries entries⟩
    · rw [ofSpecs, heq] at h
      cases h
  · intro d hnodup hnames hspells
    have hall := forall₂_declares hspells hnames
    rw [ofSpecs, mapM_ofSpec_of_forall₂ hall]
    exact congrArg Except.ok (ofEntries_of_nodup hnodup)

/-- A type name that holds a blank is read back from among blanks, and a blank name behind a name
without a type is a fault. -/
theorem spaced_specs_read :
    ofSpecs [" س\t: خيط رمزي ", "ص:LIST"] = .ok [("س", .string), ("ص", .list)] ∧
    ∃ f, ofSpecs ["س", " :صحيح"] = .error f := by
  have hspace : isBlank ' ' = true := by decide
  have htab : isBlank '\t' = true := by decide
  constructor
  · apply (specs_read_completely_in_order _).2.2.2
    · decide
    · simp only [keys, List.map_cons, List.map_nil, List.forall_mem_cons]
      decide +kernel
    · refine .cons ⟨[' '], ['\t'], [' '], [' '], "خيط رمزي", ?_, ?_, Or.inr ?_⟩
        (.cons ⟨[], [], [], [], "LIST", ?_, by simp, Or.inl rfl⟩ .nil)
      · decide +kernel
      · simp [hspace, htab]
      · decide
      · decide +kernel
  · apply (specs_read_completely_in_order _).1.mpr
    refine ⟨" :صحيح", by simp, [' '], "صحيح".toList, ?_, Or.inl ?_⟩
    · exact @Cut.colon [' '] _ (by decide)
    · exact trimBlanks_eq_iff.mp (by decide)

end Declarations

end Barnamaj
