import Barnamaj.CommandLine.Run
import Barnamaj.Proofs.Code.Simulation
import Barnamaj.Proofs.File.Writing
import Barnamaj.Proofs.Parser.Readings

/-!
# What runs leave behind

A run ends in one of a few ways (`CommandLine.Job.Runs`). It changes the file tree in only one of
them, in which there is code and a place to save it. Nothing is shown of a source that cannot be
shown as a whole. What is compiled can be parsed, and what is parsed can be read as tokens, so a
source that gets through one of these runs gets through the others.
-/

namespace Barnamaj.CommandLine

variable {job : Job} {t : FileTree} {transfer : Transfer} {d : Declarations}
  {source path message : String} {code : List Instruction} {names : FileNames}

/-! ### How runs end -/

/-- The declarations of the job and its source file can be read, and the source has the code. -/
def Job.Compiles (job : Job) (t : FileTree) (code : List Instruction) : Prop :=
  ∃ d source, Declarations.ofSpecs job.specs = .ok d ∧ readSource t job.source = .ok source ∧
    (Barnamaj.compile job.source d source).outcome = .ok code

/-- The job asks for code in a file, there is code, and the path can be opened for writing. -/
structure Job.Saves (job : Job) (t : FileTree) (code : List Instruction) (path : String)
    (names : FileNames) : Prop where
  noTokens : job.tokens = false
  noTree : job.tree = false
  compiles : job.Compiles t code
  output : job.output = some path
  nonempty : path ≠ ""
  writable : t.WritableAt path names

/-- What is told of a source of which nothing is shown: the fault of its declarations, of its file,
or of its text. -/
inductive Job.Refusal (job : Job) (t : FileTree) : String → Prop where
  | declarations {f : Declarations.Fault} (h : Declarations.ofSpecs job.specs = .error f) :
      job.Refusal t f.diagnostic.message
  | file {d : Declarations} {f : ReadFault} (hd : Declarations.ofSpecs job.specs = .ok d)
      (hmode : job.tokens = true ∨ job.tree = true) (h : readSource t job.source = .error f) :
      job.Refusal t ("cannot read " ++ job.source ++ ": " ++ f.text)
  | tokens {d : Declarations} {source : String} {e : LexicalError}
      (hd : Declarations.ofSpecs job.specs = .ok d) (hs : readSource t job.source = .ok source)
      (hmode : job.tokens = true) (h : tokenize source = .error e) :
      job.Refusal t e.diagnostic.message
  | outline {d : Declarations} {source : String} {e : ParseError}
      (hd : Declarations.ofSpecs job.specs = .ok d) (hs : readSource t job.source = .ok source)
      (hmode : job.tokens = false) (htree : job.tree = true) (h : parse source = .error e) :
      job.Refusal t e.diagnostic.message

/-- How a run goes, and what it leaves. -/
inductive Job.Runs (job : Job) (t : FileTree) (transfer : Transfer) : Report × FileTree → Prop where
  | refused {message : String} (h : job.Refusal t message) :
      job.Runs t transfer (Job.failure message, t)
  | listed {d : Declarations} {source : String} {ts : List Token} {r : Report}
      (hd : Declarations.ofSpecs job.specs = .ok d) (hs : readSource t job.source = .ok source)
      (hmode : job.tokens = true) (h : tokenize source = .ok ts) (hr : r.exit = 0) :
      job.Runs t transfer (r, t)
  | outlined {d : Declarations} {source : String} {tree : Program} {r : Report}
      (hd : Declarations.ofSpecs job.specs = .ok d) (hs : readSource t job.source = .ok source)
      (hmode : job.tokens = false) (htree : job.tree = true) (h : parse source = .ok tree)
      (hr : r.exit = 0) : job.Runs t transfer (r, t)
  | failed {r : Report} (hmode : job.tokens = false) (htree : job.tree = false)
      (h : ∀ code, ¬ job.Compiles t code) (hr : r.exit = 1) : job.Runs t transfer (r, t)
  | printed {code : List Instruction} {r : Report} (hmode : job.tokens = false)
      (htree : job.tree = false) (h : job.Compiles t code) (ho : job.output = none)
      (hr : r.exit = 0) : job.Runs t transfer (r, t)
  | unopened {code : List Instruction} {path : String} {r : Report} (hmode : job.tokens = false)
      (htree : job.tree = false) (h : job.Compiles t code) (ho : job.output = some path)
      (hp : ∀ names, ¬ t.WritableAt path names) (hr : r.exit = 1) : job.Runs t transfer (r, t)
  | saved {code : List Instruction} {path : String} {names : FileNames} {r : Report}
      (h : job.Saves t code path names) (hr : r.exit = if transfer = .complete then 0 else 1) :
      job.Runs t transfer
        (r, (t.write path (Instruction.listing code).toUTF8.toList transfer).2)

lemma Job.runs_inspect (hd : Declarations.ofSpecs job.specs = .ok d)
    (hmode : job.tokens = true ∨ job.tree = true) :
    job.Runs t transfer (job.inspect (readSource t job.source), t) := by
  cases hs : readSource t job.source with
  | error f => exact .refused (.file hd hmode hs)
  | ok source =>
    simp only [Job.inspect]
    cases htokens : job.tokens with
    | true =>
      rw [if_pos rfl, Job.printTokens]
      cases h : tokenize source with
      | error e => exact .refused (.tokens hd hs htokens h)
      | ok ts => exact .listed hd hs htokens h rfl
    | false =>
      have htree : job.tree = true := hmode.resolve_left (by simp [htokens])
      rw [if_neg (by simp), Job.printOutline]
      cases h : parse source with
      | error e => exact .refused (.outline hd hs htokens htree h)
      | ok tree => exact .outlined hd hs htokens htree h rfl

/-- A compilation has code exactly if the file can be read and its text has code. -/
lemma compileFile_eq_ok {content : Except ReadFault String} :
    (compileFile path d content).outcome = .ok code ↔
      ∃ source, content = .ok source ∧ (compile path d source).outcome = .ok code := by
  cases content with
  | error f => simp [compileFile]
  | ok source => simp [compileFile]

/-- A job runs in one of the ways listed. -/
lemma Job.runs (job : Job) (t : FileTree) (transfer : Transfer) :
    job.Runs t transfer (job.run t transfer) := by
  rw [Job.run, Job.product]
  cases hd : Declarations.ofSpecs job.specs with
  | error f => exact .refused (.declarations hd)
  | ok d =>
    dsimp only
    cases hmode : job.tokens || job.tree with
    | true =>
      rw [if_pos rfl]
      exact Job.runs_inspect hd (Bool.or_eq_true_iff.mp hmode)
    | false =>
      obtain ⟨htokens, htree⟩ := Bool.or_eq_false_iff.mp hmode
      rw [if_neg (by simp), Job.compile]
      cases hc : (compileFile job.source d (readSource t job.source)).outcome with
      | error f =>
        refine .failed htokens htree ?_ rfl
        rintro code ⟨d', source, hd', hs, hcode⟩
        rw [hd] at hd'
        cases hd'
        rw [compileFile_eq_ok.mpr ⟨source, hs, hcode⟩] at hc
        cases hc
      | ok code =>
        obtain ⟨source, hs, hcode⟩ := compileFile_eq_ok.mp hc
        have hcompiles : job.Compiles t code := ⟨d, source, hd, hs, hcode⟩
        cases ho : job.output with
        | none => exact .printed htokens htree hcompiles ho rfl
        | some path =>
          -- all that can go wrong now is the attempt to write
          dsimp only
          by_cases hw : ∃ names, t.WritableAt path names
          · obtain ⟨names, hw⟩ := hw
            refine .saved ⟨htokens, htree, hcompiles, ho, hw.ne_empty, hw⟩ ?_
            rw [hw.write_eq]
            cases transfer <;> rfl
          · obtain ⟨f, hwrite⟩ := FileTree.write_of_not_writableAt (not_exists.mp hw)
              (Instruction.listing code).toUTF8.toList transfer
            rw [hwrite]
            exact .unopened htokens htree hcompiles ho (not_exists.mp hw) rfl

/-! ### What a run leaves -/

variable {x : Report × FileTree}

lemma Job.Runs.unchanged (h : job.Runs t transfer x)
    (hs : ¬ ∃ code path names, job.Saves t code path names) : x.2 = t := by
  cases h with
  | saved h => exact absurd ⟨_, _, _, h⟩ hs
  | _ => rfl

lemma Job.Compiles.unique {code' : List Instruction} (h : job.Compiles t code)
    (h' : job.Compiles t code') : code = code' := by
  obtain ⟨d, source, hd, hs, hc⟩ := h
  obtain ⟨d', source', hd', hs', hc'⟩ := h'
  cases hd.symm.trans hd'
  cases hs.symm.trans hs'
  cases hc.symm.trans hc'
  rfl

lemma Job.Refusal.not_compiles (h : job.Refusal t message) (htokens : job.tokens = false)
    (htree : job.tree = false) : ¬ job.Compiles t code := by
  rintro ⟨d, source, hd, -, -⟩
  cases h with
  | declarations h => cases hd.symm.trans h
  | file _ hmode _ => simp [htokens, htree] at hmode
  | tokens _ _ hmode _ => cases htokens.symm.trans hmode
  | outline _ _ _ hmode _ => cases htree.symm.trans hmode

/-- A job with code to save and a place for it saves it there, as far as it is stored. -/
lemma Job.Runs.of_saves (h : job.Runs t transfer x) (hs : job.Saves t code path names) :
    ∃ r : Report, (r.exit = if transfer = .complete then 0 else 1) ∧
      x = (r, (t.write path (Instruction.listing code).toUTF8.toList transfer).2) := by
  cases h with
  | refused h => exact absurd hs.compiles (h.not_compiles hs.noTokens hs.noTree)
  | listed _ _ hmode _ _ => cases hs.noTokens.symm.trans hmode
  | outlined _ _ _ htree _ _ => cases hs.noTree.symm.trans htree
  | failed _ _ h _ => exact absurd hs.compiles (h code)
  | printed _ _ _ ho _ => cases hs.output.symm.trans ho
  | unopened _ _ _ ho hp _ =>
    cases hs.output.symm.trans ho
    exact absurd hs.writable (hp names)
  | saved h hr =>
    cases h.compiles.unique hs.compiles
    cases h.output.symm.trans hs.output
    exact ⟨_, hr, rfl⟩

/-- The job asks for tokens or for an outline, and its source has them. -/
inductive Job.Shows (job : Job) (t : FileTree) : Prop where
  | tokens {source : String} {ts : List Token} (hmode : job.tokens = true)
      (hs : readSource t job.source = .ok source) (h : tokenize source = .ok ts)
  | outline {source : String} {tree : Program} (hmode : job.tokens = false)
      (htree : job.tree = true) (hs : readSource t job.source = .ok source)
      (h : parse source = .ok tree)

lemma Job.Refusal.not_shows (h : job.Refusal t message)
    (hd : Declarations.ofSpecs job.specs = .ok d) : ¬ job.Shows t := by
  intro hs
  cases h with
  | declarations h => cases hd.symm.trans h
  | file _ _ h =>
    cases hs with
    | tokens _ hs _ => cases hs.symm.trans h
    | outline _ _ hs _ => cases hs.symm.trans h
  | tokens _ hs' hmode h =>
    cases hs with
    | tokens _ hs hts =>
      cases hs.symm.trans hs'
      cases hts.symm.trans h
    | outline hmode' _ _ _ => cases hmode.symm.trans hmode'
  | outline _ hs' hmode _ h =>
    cases hs with
    | tokens hmode' _ _ => cases hmode.symm.trans hmode'
    | outline _ _ hs htree =>
      cases hs.symm.trans hs'
      cases htree.symm.trans h

lemma Job.Shows.mode (h : job.Shows t) : job.tokens = true ∨ job.tree = true := by
  cases h with
  | tokens hmode => exact Or.inl hmode
  | outline _ htree => exact Or.inr htree

/-- What can be shown is shown. -/
lemma Job.Runs.of_shows (h : job.Runs t transfer x) (hd : Declarations.ofSpecs job.specs = .ok d)
    (hs : job.Shows t) : x.1.exit = 0 := by
  have hmode := hs.mode
  cases h with
  | refused h => exact absurd hs (h.not_shows hd)
  | listed _ _ _ _ hr => exact hr
  | outlined _ _ _ _ _ hr => exact hr
  | failed htokens htree _ _ => simp [htokens, htree] at hmode
  | printed _ _ _ _ hr => exact hr
  | unopened htokens htree _ _ _ _ => simp [htokens, htree] at hmode
  | saved h _ => simp [h.noTokens, h.noTree] at hmode

/-- Of what cannot be shown, only the reason is told. -/
lemma Job.Runs.of_not_shows (h : job.Runs t transfer x)
    (hmode : job.tokens = true ∨ job.tree = true) (hs : ¬ job.Shows t) :
    ∃ message, job.Refusal t message ∧ x = (Job.failure message, t) := by
  cases h with
  | refused h => exact ⟨_, h, rfl⟩
  | listed _ hs' hmode' h _ => exact absurd (.tokens hmode' hs' h) hs
  | outlined _ hs' hmode' htree h _ => exact absurd (.outline hmode' htree hs' h) hs
  | failed htokens htree _ _ => simp [htokens, htree] at hmode
  | printed htokens htree _ _ _ => simp [htokens, htree] at hmode
  | unopened htokens htree _ _ _ _ => simp [htokens, htree] at hmode
  | saved h _ => simp [h.noTokens, h.noTree] at hmode

lemma Job.Compiles.exists_parse (h : job.Compiles t code) :
    ∃ d source tree, Declarations.ofSpecs job.specs = .ok d ∧
      readSource t job.source = .ok source ∧ parse source = .ok tree := by
  obtain ⟨d, source, hd, hs, hc⟩ := h
  obtain ⟨tree, htree, -⟩ := compile_eq_ok hc
  exact ⟨d, source, tree, hd, hs, htree⟩

/-- A run that succeeds has parsed its source, unless it was about tokens. -/
lemma Job.Runs.exists_parse (h : job.Runs t transfer x) (hmode : job.tokens = false)
    (hx : x.1.exit = 0) :
    ∃ d source tree, Declarations.ofSpecs job.specs = .ok d ∧
      readSource t job.source = .ok source ∧ parse source = .ok tree := by
  cases h with
  | refused _ => cases hx
  | listed _ _ hmode' _ _ => cases hmode.symm.trans hmode'
  | outlined hd hs _ _ h _ => exact ⟨_, _, _, hd, hs, h⟩
  | failed _ _ _ hr => cases hx.symm.trans hr
  | printed _ _ h _ _ => exact h.exists_parse
  | unopened _ _ _ _ _ hr => cases hx.symm.trans hr
  | saved h _ => exact h.compiles.exists_parse

/-- What has been parsed can be shown in any way. -/
lemma Job.shows_of_parse {tree : Program} (hmode : job.tokens = true ∨ job.tree = true)
    (hs : readSource t job.source = .ok source) (h : parse source = .ok tree) : job.Shows t := by
  cases htokens : job.tokens with
  | true =>
    obtain ⟨-, ts, hts, -⟩ := exists_tokenize_of_parse h
    exact .tokens htokens hs hts
  | false => exact .outline htokens (hmode.resolve_left (by simp [htokens])) hs h

lemma run_of_ofArguments {arguments : List String} {bundling : Bundling}
    (h : Job.ofArguments arguments bundling = .ok job) (t : FileTree) (transfer : Transfer) :
    run arguments t bundling transfer = job.run t transfer := by
  rw [run, h]

/-- A run leaves no partial result, whichever way its arguments are read. It changes the file tree
only if its declarations are in order, it asks neither for tokens nor for an outline, its source
compiles, and there is a path for the listing that can be opened for writing. Then it changes the
file at this path only. If the opened file takes what is written, the run succeeds and the file
holds exactly the listing. If the system stops the writing, the run fails, and what it stored until
then is in the file. Of a source that cannot be shown as tokens or as an outline, only the reason is
told, and the run fails. If a run that is not about tokens succeeds, then so do those that show the
same source with the same declarations: what compiles has an outline, and what has an outline has
tokens. -/
theorem run_leaves_no_partial_result {bundling : Bundling} {arguments : List String} {job : Job}
    (h : Job.ofArguments arguments bundling = .ok job) (t : FileTree) (transfer : Transfer) :
    ((¬ ∃ code path names, job.Saves t code path names) →
      (run arguments t bundling transfer).2 = t) ∧
    (∀ code path names, job.Saves t code path names →
      ∃ r after, run arguments t bundling transfer = (r, after) ∧
        (∀ other, other ≠ names → after.entry? other = t.entry? other) ∧
        (transfer = .complete → r.exit = 0 ∧
          after.read path = .ok (Instruction.listing code).toUTF8.toList ∧
          after.entry? names = some (.file (Instruction.listing code).toUTF8.toList)) ∧
        ∀ n f, transfer = .stopped n f → r.exit = 1 ∧
          after.entry? names = some (.file ((Instruction.listing code).toUTF8.toList.take n))) ∧
    (job.tokens = true ∨ job.tree = true → ¬ job.Shows t →
      ∃ message, job.Refusal t message ∧ run arguments t bundling transfer =
        ({ exit := 1, out := "Error: " ++ message ++ "\n", err := "" }, t)) ∧
    ∀ arguments' job' transfer', Job.ofArguments arguments' bundling = .ok job' →
      job'.source = job.source → job'.specs = job.specs → job.tokens = false →
      (run arguments t bundling transfer).1.exit = 0 → job'.tokens = true ∨ job'.tree = true →
      (run arguments' t bundling transfer').1.exit = 0 := by
  have hruns := job.runs t transfer
  rw [run_of_ofArguments h]
  refine ⟨hruns.unchanged, ?_, hruns.of_not_shows, ?_⟩
  · intro code path names hs
    obtain ⟨r, hexit, hafter⟩ := hruns.of_saves hs
    refine ⟨r, _, hafter, ?_, ?_, ?_⟩
    · intro other hother
      rw [hs.writable.entry?_write, if_neg hother]
    · rintro rfl
      refine ⟨hexit, hs.writable.read_write _ _, ?_⟩
      rw [hs.writable.entry?_write, if_pos rfl]
      rfl
    · rintro n f rfl
      refine ⟨hexit, ?_⟩
      rw [hs.writable.entry?_write, if_pos rfl]
      rfl
  · intro arguments' job' transfer' h' hsource hspecs hmode hexit hmode'
    obtain ⟨d, source, tree, hd, hs, htree⟩ := hruns.exists_parse hmode hexit
    rw [← hsource] at hs
    rw [← hspecs] at hd
    rw [run_of_ofArguments h']
    exact (job'.runs t transfer').of_shows hd (Job.shows_of_parse hmode' hs htree)

/-- A listing is saved below a directory unless the disk is full, its source has tokens, and nothing
is shown of a file that does not exist. -/
theorem listing_saved_below_directory :
    let t : FileTree := { entries :=
      [(["p"], .file "برنامج ب;\x7bس=1\x7d.".toUTF8.toList), (["a"], .directory)] }
    let full : Transfer := .stopped 3 (.other 28 "No space left on device")
    (∃ code r after, run ["p", "-Dس", "-vo=a/o"] t .strict = (r, after) ∧ r.exit = 0 ∧
      after.read "a/o" = .ok (Instruction.listing code).toUTF8.toList ∧
      after.entry? ["p"] = t.entry? ["p"]) ∧
    (∃ r after, run ["p", "-Dس", "-vo=a/o"] t .strict full = (r, after) ∧ r.exit = 1 ∧
      after.entry? ["p"] = t.entry? ["p"]) ∧
    (run ["p", "-Dس", "--tok"] t .strict).1.exit = 0 ∧
    ∃ message, run ["q", "-Dس", "--ast", "-o--"] t .strict =
      ({ exit := 1, out := "Error: " ++ message ++ "\n", err := "" }, t) := by
  intro t full
  have hargs : Job.ofArguments ["p", "-Dس", "-vo=a/o"] .strict =
      .ok ⟨"p", ["س"], false, false, some "a/o", true⟩ := by rfl
  have htokens : Job.ofArguments ["p", "-Dس", "--tok"] .strict =
      .ok ⟨"p", ["س"], true, false, none, false⟩ := by rfl
  have hmissing : Job.ofArguments ["q", "-Dس", "--ast", "-o--"] .strict =
      .ok ⟨"q", ["س"], false, true, some "--", false⟩ := by rfl
  have hsource : readSource t "p" = .ok "برنامج ب;\x7bس=1\x7d." := by
    rw [readSource, FileTree.read, String.splitOn, if_neg (by decide), String.splitOnAux,
      if_neg (by decide), if_neg (by decide), String.splitOnAux, if_pos (by decide)]
    decide +kernel
  have hnone : readSource t "q" = .error (.system .notFound "q") := by
    rw [readSource, FileTree.read, String.splitOn, if_neg (by decide), String.splitOnAux,
      if_neg (by decide), if_neg (by decide), String.splitOnAux, if_pos (by decide)]
    decide +kernel
  have hspecs : Declarations.ofSpecs ["س"] = .ok [("س", .integer)] := by decide +kernel
  have hcode : (compile "p" [("س", .integer)] "برنامج ب;\x7bس=1\x7d.").outcome =
      .ok [{ op := .assign, result := some (.named "س"),
             arg1 := some (.constant (.int 1) (some .integerLiteral)) }, { op := .halt }] := by
    decide +kernel
  have hsplit : "a/o".splitOn "/" = ["a", "o"] := by
    rw [String.splitOn, if_neg (by decide), String.splitOnAux, if_neg (by decide),
      if_neg (by decide), String.splitOnAux, if_neg (by decide), if_pos (by decide),
      if_pos (by decide), String.splitOnAux, if_neg (by decide), if_neg (by decide),
      String.splitOnAux, if_pos (by decide)]
    rfl
  have hplace : t.WritableAt "a/o" ["a", "o"] := by
    refine ⟨by decide +kernel, ?_, by decide +kernel⟩
    rw [hsplit]
    decide +kernel
  have hjob : Job.Saves ⟨"p", ["س"], false, false, some "a/o", true⟩ t _ "a/o" ["a", "o"] :=
    ⟨rfl, rfl, ⟨_, _, hspecs, hsource, hcode⟩, rfl, by decide, hplace⟩
  obtain ⟨-, hsaves, -, hmodes⟩ := run_leaves_no_partial_result hargs t .complete
  obtain ⟨r, after, hrun, hother, hcomplete, -⟩ := hsaves _ _ _ hjob
  obtain ⟨hexit, hread, -⟩ := hcomplete rfl
  obtain ⟨-, hstops, -, -⟩ := run_leaves_no_partial_result hargs t full
  obtain ⟨r', after', hrun', hother', -, hstopped⟩ := hstops _ _ _ hjob
  obtain ⟨hexit', -⟩ := hstopped _ _ rfl
  refine ⟨⟨_, r, after, hrun, hexit, hread, hother _ (by decide)⟩,
    ⟨r', after', hrun', hexit', hother' _ (by decide)⟩, ?_, ?_⟩
  · apply hmodes _ _ _ htokens rfl rfl rfl
    · rw [hrun]
      exact hexit
    · exact Or.inl rfl
  · have hshows : ¬ Job.Shows ⟨"q", ["س"], false, true, some "--", false⟩ t := by
      intro hs
      cases hs with
      | tokens _ hs _ => cases hs.symm.trans hnone
      | outline _ _ hs _ => cases hs.symm.trans hnone
    obtain ⟨-, -, hrefuses, -⟩ := run_leaves_no_partial_result hmissing t .complete
    obtain ⟨message, -, hrun⟩ := hrefuses (Or.inr rfl) hshows
    exact ⟨message, hrun⟩

end Barnamaj.CommandLine
