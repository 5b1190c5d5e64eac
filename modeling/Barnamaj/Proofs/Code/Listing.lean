import Barnamaj.Proofs.Code.Forms

/-!
# Listings

The listing of compiled code has a line for each instruction, and no name of an operand breaks a
line in two. Blanks separate the operands of a line, and only a string has blanks inside, between
quotes (`Written`). So a listing without character constants can be read back, up to the names of
the operands.
-/

namespace Barnamaj

open Text

/-! ### Names in a line -/

/-- The characters of names that are not quoted: none of those with which a name or a line ends. -/
def isPlain (c : Char) : Bool :=
  c != ' ' && c != '"' && c != '\n'

/-- The names of operands that can be told apart in a line: without blanks, or a text between quotes
that has no quote inside. -/
inductive Written : List Char → Prop where
  | plain {cs : List Char} (h : ∀ c ∈ cs, isPlain c = true) : Written cs
  | quoted {body : List Char} (h : ∀ c ∈ body, Lexeme.isStringPart c = true) :
      Written ('"' :: (body ++ ['"']))

namespace Written

/-- A rest of a line that is empty or starts with a blank. -/
def Ends (rest : List Char) : Prop := ∀ b ∈ rest.head?, b = ' '

variable {w w' rest rest' : List Char}

/-- A text ends where a character that is not in it stands, or at the end. -/
lemma append_inj_of_notMem {c : Char} (hw : c ∉ w) (hw' : c ∉ w') (hr : ∀ b ∈ rest.head?, b = c)
    (hr' : ∀ b ∈ rest'.head?, b = c) (h : w ++ rest = w' ++ rest') : w = w' ∧ rest = rest' := by
  have hinside : ∀ {w : List Char}, c ∉ w → ∀ x ∈ w, (x != c) = true := by
    intro w hw x hx
    simpa using ne_of_mem_of_not_mem hx hw
  have hend : ∀ {rest : List Char}, (∀ b ∈ rest.head?, b = c) →
      ∀ b ∈ rest.head?, (b != c) = false := by
    intro rest hr b hb
    simpa using hr b hb
  obtain ⟨htake, hdrop⟩ := Lexeme.takeWhile_append_of_head (hinside hw) (hend hr)
  obtain ⟨htake', hdrop'⟩ := Lexeme.takeWhile_append_of_head (hinside hw') (hend hr')
  rw [h] at htake hdrop
  exact ⟨htake.symm.trans htake', hdrop.symm.trans hdrop'⟩

lemma append_cons_inj_of_notMem {c : Char} (hw : c ∉ w) (hw' : c ∉ w')
    (h : w ++ c :: rest = w' ++ c :: rest') : w = w' ∧ rest = rest' := by
  obtain ⟨rfl, hrest⟩ := append_inj_of_notMem hw hw' (by simp) (by simp) h
  exact ⟨rfl, (List.cons.inj hrest).2⟩

lemma notMem_of_forall {p : Char → Bool} {c : Char} (h : ∀ x ∈ w, p x = true)
    (hc : p c = false) : c ∉ w := by
  intro hmem
  rw [h c hmem] at hc
  cases hc

lemma notMem_newline (h : Written w) : '\n' ∉ w := by
  cases h with
  | plain h => exact notMem_of_forall h (by decide)
  | quoted h => simp [notMem_of_forall h (c := '\n') (by decide)]

/-- Only a quoted name starts with a quote. -/
lemma append_ne_quote_cons {cs : List Char} (hw : ∀ c ∈ w, isPlain c = true)
    (hr : Ends rest) : w ++ rest ≠ '"' :: cs := by
  intro h
  cases w with
  | nil =>
    have hblank := hr '"' (by simp [show rest = '"' :: cs from h])
    exact absurd hblank (by decide)
  | cons c w =>
    obtain rfl : c = '"' := (List.cons.inj h).1
    exact notMem_of_forall hw (by decide) List.mem_cons_self

/-- A name in a line ends in front of the next blank, or with its closing quote. -/
lemma append_inj (hw : Written w) (hw' : Written w') (hr : Ends rest) (hr' : Ends rest')
    (h : w ++ rest = w' ++ rest') : w = w' ∧ rest = rest' := by
  cases hw with
  | plain hplain =>
    cases hw' with
    | plain hplain' =>
      exact append_inj_of_notMem (notMem_of_forall hplain (by decide))
        (notMem_of_forall hplain' (by decide)) hr hr' h
    | quoted _ => exact absurd h (append_ne_quote_cons hplain hr)
  | @quoted body hbody =>
    cases hw' with
    | plain hplain' => exact absurd h.symm (append_ne_quote_cons hplain' hr')
    | @quoted body' hbody' =>
      have hinner : body ++ '"' :: rest = body' ++ '"' :: rest' := by simpa using h
      obtain ⟨rfl, rfl⟩ := append_cons_inj_of_notMem (notMem_of_forall hbody (by decide))
        (notMem_of_forall hbody' (by decide)) hinner
      exact ⟨rfl, rfl⟩

/-- Names with a blank in front of each. -/
def spaced (ws : List (List Char)) : List Char := ws.flatMap (' ' :: ·)

lemma ends_spaced (ws : List (List Char)) : Ends (spaced ws) := by
  cases ws <;> simp [Ends, spaced]

/-- Names with blanks in front of them are found again. -/
lemma spaced_inj {ws ws' : List (List Char)} (hws : ∀ w ∈ ws, Written w)
    (hws' : ∀ w ∈ ws', Written w) (h : spaced ws = spaced ws') : ws = ws' := by
  induction ws generalizing ws' with
  | nil =>
    cases ws' with
    | nil => rfl
    | cons w' ws' => simp [spaced] at h
  | cons w ws ih =>
    cases ws' with
    | nil => simp [spaced] at h
    | cons w' ws' =>
      rw [List.forall_mem_cons] at hws hws'
      have hcons : w ++ spaced ws = w' ++ spaced ws' := by simpa [spaced] using h
      obtain ⟨rfl, hrest⟩ := append_inj hws.1 hws'.1 (ends_spaced ws) (ends_spaced ws') hcons
      rw [ih hws.2 hws'.2 hrest]

end Written

namespace Operand

lemma plain_of_isWordPart {c : Char} (h : Lexeme.isWordPart c = true) : isPlain c = true := by
  have hmarks := notMem_marks_of_isWordPart h
  simp only [marks, List.mem_cons, not_or] at hmarks
  simp [isPlain, hmarks]

lemma plain_of_isDigit {c : Char} (h : c.isDigit = true) : isPlain c = true :=
  plain_of_isWordPart (isLetter_isWordPart_of_isDigit h).2

lemma plain_digits (n : ℕ) : ∀ c ∈ Nat.toDigits 10 n, isPlain c = true :=
  fun c hc => plain_of_isDigit (Decimal.isDigit_of_mem_toDigits c hc)

lemma plain_of_showsReal {cs : List Char} (h : Decimal.ShowsReal cs) :
    ∀ c ∈ cs, isPlain c = true := by
  have htable : ∀ c ∈ ['.', 'e', '+', '-'], isPlain c = true := List.all_eq_true.mp (by decide)
  intro c hc
  rcases h.digit_or_mark c hc with hd | hm
  · exact plain_of_isDigit hd
  · exact htable c hm

/-- The name of the operand is found again in a line. -/
def Legible (o : Operand) : Prop := Written o.name.toList

/-- The operands of compiled code are found again in a line, unless they are characters. -/
lemma Formed.legible {o : Operand} (h : o.Formed) (hk : o.kind ≠ some .charLiteral) :
    o.Legible := by
  cases h with
  | @named c cs hc hcs =>
    rw [Legible, toList_name_named]
    have hword : ∀ x ∈ c :: cs, Lexeme.isWordPart x = true :=
      List.forall_mem_cons.mpr ⟨by simp [Lexeme.isWordPart, hc], hcs⟩
    exact .plain fun x hx => plain_of_isWordPart (hword x hx)
  | temporary k =>
    rw [Legible, toList_name_temporary]
    refine .plain ?_
    rw [List.forall_mem_cons, List.forall_mem_cons]
    exact ⟨rfl, rfl, plain_digits k⟩
  | integer n =>
    rw [Legible, toList_name_integer]
    exact .plain (plain_digits n)
  | real m e => exact .plain (plain_of_showsReal (Decimal.Binary64.showsReal_text m e))
  | infinity => exact .plain (List.all_eq_true.mp (by decide))
  | string hb =>
    rw [Legible, toList_name_string]
    exact .quoted hb
  | character _ => exact absurd rfl hk
  | trueConstant => exact .plain (List.all_eq_true.mp (by decide))
  | falseConstant => exact .plain (List.all_eq_true.mp (by decide))

/-- No name of an operand of compiled code has a newline inside. -/
lemma Formed.notMem_newline {o : Operand} (h : o.Formed) : '\n' ∉ o.name.toList := by
  by_cases hk : o.kind = some .charLiteral
  · cases h with
    | character hc =>
      rw [toList_name_character, List.mem_singleton]
      exact hc.symm
    | _ => cases hk
  · exact Written.notMem_newline (h.legible hk)

end Operand

/-! ### Lines -/

lemma OpCode.ofName?_name (op : OpCode) : ofName? op.name = some op := by
  cases op <;> decide

lemma OpCode.name_injective {op op' : OpCode} (h : op.name = op'.name) : op = op' := by
  have heq := congrArg ofName? h
  rw [ofName?_name, ofName?_name] at heq
  exact Option.some.inj heq

/-- The names of operations have neither blanks nor newlines. -/
lemma OpCode.plain_name (op : OpCode) : ∀ c ∈ op.name.toList, isPlain c = true := by
  cases op <;> exact List.all_eq_true.mp (by decide)

lemma OpCode.ne_of_computes {op op' : OpCode} (h : op.computes = true)
    (h' : op'.computes = false) : op ≠ op' := by
  rintro rfl
  rw [h] at h'
  cases h'

namespace Instruction

/-- The instructions have the same operation, and in each place operands of the same name. -/
structure NamesAgree (i i' : Instruction) : Prop where
  op : i.op = i'.op
  result : i.result.map Operand.name = i'.result.map Operand.name
  arg1 : i.arg1.map Operand.name = i'.arg1.map Operand.name
  arg2 : i.arg2.map Operand.name = i'.arg2.map Operand.name

/-- The line of an instruction at an index, without its newline. -/
def entry (index : ℕ) (i : Instruction) : String :=
  "\t" ++ toString index ++ ": " ++ i.op.name ++ String.join (i.operands.map (" " ++ ·.name))

variable {P : Operand → Prop} {i i' : Instruction}

lemma intercalate_blank (w : List Char) (ws : List (List Char)) :
    [' '].intercalate (w :: ws) = w ++ Written.spaced ws := by
  induction ws generalizing w with
  | nil => simp [Written.spaced]
  | cons w' ws ih =>
    rw [List.intercalate_cons_cons, ih]
    simp [Written.spaced]

lemma toList_text (i : Instruction) :
    i.text.toList = i.op.name.toList ++ Written.spaced (i.operands.map (·.name.toList)) := by
  rw [text, String.toList_intercalate, List.map_cons, List.map_map]
  exact intercalate_blank _ _

lemma toList_entry (index : ℕ) (i : Instruction) :
    (i.entry index).toList = ("\t" ++ toString index ++ ": ").toList ++
      (i.op.name.toList ++ Written.spaced (i.operands.map (·.name.toList))) := by
  simp [entry, Written.spaced, String.toList_join, List.flatMap_map]

lemma line_eq_entry {i : Instruction} (h : i.op ≠ .label) (index : ℕ) :
    i.line index = i.entry index ++ "\n" := by
  apply String.toList_injective
  rw [line, if_neg h]
  simp only [String.toList_append, toList_entry, toList_text]

lemma Shaped.op_ne_label (h : i.Shaped P) : i.op ≠ .label := by
  cases h with
  | unary hop _ _ => exact OpCode.ne_of_computes hop rfl
  | binary hop _ _ _ => exact OpCode.ne_of_computes hop rfl
  | assign _ _ => exact fun heq => nomatch heq
  | print _ => exact fun heq => nomatch heq
  | read _ => exact fun heq => nomatch heq
  | halt => exact fun heq => nomatch heq

/-- The names of the result and of the two arguments, by the operation and the names that follow it.
Only the operation that prints has an argument and no result. -/
def slots (op : OpCode) (names : List String) : Option String × Option String × Option String :=
  if op = .print then (none, names[0]?, none) else (names[0]?, names[1]?, names[2]?)

lemma Shaped.slots_eq (h : i.Shaped P) : slots i.op (i.operands.map Operand.name) =
    (i.result.map Operand.name, i.arg1.map Operand.name, i.arg2.map Operand.name) := by
  cases h with
  | unary hop _ _ => exact if_neg (OpCode.ne_of_computes hop rfl)
  | binary hop _ _ _ => exact if_neg (OpCode.ne_of_computes hop rfl)
  | assign _ _ => rfl
  | print _ => rfl
  | read _ => rfl
  | halt => rfl

/-- An instruction of compiled code is known by its operation and the names of its operands. -/
lemma Shaped.namesAgree {P' : Operand → Prop} (h : i.Shaped P) (h' : i'.Shaped P')
    (hop : i.op = i'.op) (hnames : i.operands.map Operand.name = i'.operands.map Operand.name) :
    i.NamesAgree i' := by
  have hslots := h.slots_eq
  rw [hop, hnames, h'.slots_eq, Prod.mk.injEq, Prod.mk.injEq] at hslots
  exact ⟨hop, hslots.1.symm, hslots.2.1.symm, hslots.2.2.symm⟩

lemma notMem_newline_entry (index : ℕ) (h : ∀ o ∈ i.operands, '\n' ∉ o.name.toList) :
    '\n' ∉ (i.entry index).toList := by
  have hindex : '\n' ∉ (toString index).toList := by
    have hdigits : (toString index).toList = Nat.toDigits 10 index := Nat.toList_repr
    rw [hdigits]
    exact Written.notMem_of_forall (Operand.plain_digits index) (by decide)
  have hop : '\n' ∉ i.op.name.toList := Written.notMem_of_forall i.op.plain_name (by decide)
  rw [toList_entry]
  simp only [String.toList_append, List.mem_append, not_or]
  exact ⟨⟨⟨by decide, hindex⟩, by decide⟩, hop, by simpa [Written.spaced] using h⟩

lemma Shaped.notMem_newline_entry (h : i.Shaped Operand.Legible) (index : ℕ) :
    '\n' ∉ (i.entry index).toList :=
  Instruction.notMem_newline_entry index fun o ho => Written.notMem_newline (h.forall_operands o ho)

/-- The line of an instruction shows its operation and the names of its operands. -/
lemma Shaped.namesAgree_of_entry_eq {index : ℕ}
    (h : i.Shaped Operand.Legible) (h' : i'.Shaped Operand.Legible)
    (heq : i.entry index = i'.entry index) : i.NamesAgree i' := by
  have hlist := congrArg String.toList heq
  rw [toList_entry, toList_entry, List.append_cancel_left_eq] at hlist
  have hwords : ∀ {i : Instruction}, i.Shaped Operand.Legible →
      ∀ w ∈ i.operands.map (·.name.toList), Written w := by
    intro i hi w hw
    obtain ⟨o, ho, rfl⟩ := List.mem_map.mp hw
    exact hi.forall_operands o ho
  obtain ⟨hop, hoperands⟩ := Written.append_inj (.plain i.op.plain_name) (.plain i'.op.plain_name)
    (Written.ends_spaced _) (Written.ends_spaced _) hlist
  have hnames := Written.spaced_inj (hwords h) (hwords h') hoperands
  refine h.namesAgree h' (OpCode.name_injective (String.toList_injective hop)) ?_
  apply List.map_injective_iff.mpr fun _ _ => String.toList_injective
  rw [List.map_map, List.map_map]
  exact hnames

/-! ### Listings -/

variable {code code' : List Instruction}

lemma linesFrom_eq_mapIdx (h : ∀ i ∈ code, i.op ≠ .label) (index : ℕ) :
    linesFrom index code = code.mapIdx fun k i => i.entry (index + k) ++ "\n" := by
  induction code generalizing index with
  | nil => rfl
  | cons i code ih =>
    rw [List.forall_mem_cons] at h
    rw [linesFrom, List.mapIdx_cons, ih h.2, line_eq_entry h.1]
    simp only [Nat.add_zero, Nat.add_assoc, Nat.add_comm 1]

lemma toList_join_linesFrom_cons (h : i.op ≠ .label) (index : ℕ) (code : List Instruction) :
    (String.join (linesFrom index (i :: code))).toList =
      (i.entry index).toList ++ '\n' :: (String.join (linesFrom (index + 1) code)).toList := by
  rw [linesFrom, line_eq_entry h]
  simp [String.toList_join]

/-- Lines are found again, as no line has a newline inside. -/
lemma forall₂_of_join_linesFrom_eq {index : ℕ}
    (h : ∀ i ∈ code, i.Shaped Operand.Legible)
    (h' : ∀ i ∈ code', i.Shaped Operand.Legible)
    (heq : (String.join (linesFrom index code)).toList =
      (String.join (linesFrom index code')).toList) :
    List.Forall₂ NamesAgree code code' := by
  have hempty : (String.join (linesFrom index [])).toList = [] := rfl
  induction code generalizing code' index with
  | nil =>
    cases code' with
    | nil => exact .nil
    | cons i' code' =>
      rw [List.forall_mem_cons] at h'
      rw [toList_join_linesFrom_cons h'.1.op_ne_label] at heq
      simp [hempty] at heq
  | cons i code ih =>
    rw [List.forall_mem_cons] at h
    rw [toList_join_linesFrom_cons h.1.op_ne_label] at heq
    cases code' with
    | nil => simp [hempty] at heq
    | cons i' code' =>
      rw [List.forall_mem_cons] at h'
      rw [toList_join_linesFrom_cons h'.1.op_ne_label] at heq
      obtain ⟨hentry, hrest⟩ := Written.append_cons_inj_of_notMem
        (h.1.notMem_newline_entry index) (h'.1.notMem_newline_entry index) heq
      exact .cons (h.1.namesAgree_of_entry_eq h'.1 (String.toList_injective hentry))
        (ih h.2 h'.2 hrest rfl)

end Instruction

/-! ### Compiled code -/

/-- The text has no character constant. -/
def CharacterFree (source : String) : Prop :=
  ∀ ts, tokenize source = .ok ts → ∀ t ∈ ts, t.kind ≠ .charLiteral

instance (source : String) : Decidable (CharacterFree source) :=
  match h : tokenize source with
  | .ok ts => decidable_of_iff (∀ t ∈ ts, t.kind ≠ .charLiteral) (by simp [CharacterFree, h])
  | .error _ => isTrue (by simp [CharacterFree, h])

variable {path source : String} {d : Declarations} {code : List Instruction}

lemma legible_of_compile (h : (compile path d source).outcome = .ok code)
    (hfree : CharacterFree source) :
    ∀ i ∈ code, i.Shaped Operand.Legible := by
  refine shaped_of_compile (fun k => (Operand.Formed.temporary k).legible (by simp [Operand.kind]))
    (fun ts hts t ht => ?_) h
  obtain ⟨hnamed, hconstant⟩ := admits_formed_of_tokenize hts t ht
  refine ⟨fun hk => (hnamed hk).legible (by simp [Operand.kind]), fun hk => ?_⟩
  exact (hconstant hk).legible (by simpa [Operand.kind] using hfree ts hts t ht)

lemma listing?_of_compile (h : (compile path d source).outcome = .ok code) :
    (compile path d source).listing? = some (Instruction.listing code) := by
  rw [Compilation.listing?, h]

/-- The listing of compiled code has exactly one line for each instruction, which starts with the
index of the instruction and the name of its operation; neither a line nor the name of an operand
has a newline inside. Where the source texts of two listings have no character constants, equal
listings are those of as many instructions, which agree in their operations and in the names of
their operands, each in its place. -/
theorem listing_tells_code (h : (compile path d source).outcome = .ok code) :
    (compile path d source).listing? =
        some (String.join (code.mapIdx fun k i => i.entry k ++ "\n")) ∧
      (∀ k, ∀ i ∈ code, '\n' ∉ (i.entry k).toList) ∧
      (∀ o ∈ Instruction.operandsOf code, '\n' ∉ o.name.toList) ∧
      ∀ (path' source' : String) (d' : Declarations) (code' : List Instruction),
        (compile path' d' source').outcome = .ok code' →
        CharacterFree source → CharacterFree source' →
        (compile path d source).listing? = (compile path' d' source').listing? →
        List.Forall₂ Instruction.NamesAgree code code' := by
  have hshaped := shaped_of_compile .temporary (fun _ => admits_formed_of_tokenize) h
  have hnewline : ∀ i ∈ code, ∀ o ∈ i.operands, '\n' ∉ o.name.toList :=
    fun i hi o ho => ((hshaped i hi).forall_operands o ho).notMem_newline
  refine ⟨?_, ?_, ?_, ?_⟩
  · rw [listing?_of_compile h, Instruction.listing,
      Instruction.linesFrom_eq_mapIdx fun i hi => (hshaped i hi).op_ne_label]
    simp only [Nat.zero_add]
  · exact fun k i hi => Instruction.notMem_newline_entry k (hnewline i hi)
  · exact fun o ho => (formed_of_compile h o ho).notMem_newline
  · intro path' source' d' code' h' hfree hfree' heq
    rw [listing?_of_compile h, listing?_of_compile h', Option.some.injEq] at heq
    exact Instruction.forall₂_of_join_linesFrom_eq (legible_of_compile h hfree)
      (legible_of_compile h' hfree') (congrArg String.toList heq)

/-- A constant and a variable that is named like it have one listing: only the names agree. -/
theorem listing_tells_names :
    ∃ code code',
      (compile "" [("س", .boolean)] "برنامج ب ; \x7b س = صح \x7d .").outcome = .ok code ∧
      (compile "" [("س", .boolean), ("True", .boolean)]
        "برنامج ب ; \x7b س = True \x7d .").outcome = .ok code' ∧
      code ≠ code' ∧ List.Forall₂ Instruction.NamesAgree code code' := by
  have h : (compile "" [("س", .boolean)] "برنامج ب ; \x7b س = صح \x7d .").outcome =
      .ok [{ op := .assign, result := some (.named "س"),
             arg1 := some (.constant (.bool true) (some .trueKw)) },
           { op := .halt }] := by
    decide +kernel
  have h' : (compile "" [("س", .boolean), ("True", .boolean)]
      "برنامج ب ; \x7b س = True \x7d .").outcome =
      .ok [{ op := .assign, result := some (.named "س"), arg1 := some (.named "True") },
           { op := .halt }] := by
    decide +kernel
  refine ⟨_, _, h, h', by decide, ?_⟩
  obtain ⟨-, -, -, hnames⟩ := listing_tells_code h
  exact hnames _ _ _ _ h' (by decide +kernel) (by decide +kernel) (by decide +kernel)

end Barnamaj
