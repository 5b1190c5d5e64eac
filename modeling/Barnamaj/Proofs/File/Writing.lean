import Barnamaj.File.Tree
import Mathlib.Data.List.Basic

/-!
# Writing to a file tree

A path can be opened for writing exactly if it leads to a place that is no directory
(`FileTree.WritableAt`). Writing changes what is in this place and nothing else, also where it stops
in the middle, and the path still leads there.
-/

namespace Barnamaj.FileTree

variable {t : FileTree} {path : String} {start names : FileNames} {rest : List String}

/-! ### Putting a file under names -/

lemma lookup_replace (es : List (FileNames × FileEntry)) (names : FileNames) (e : FileEntry)
    (other : FileNames) :
    (es.map fun entry => if entry.1 == names then (names, e) else entry).lookup other =
      if other = names then (es.lookup other).map fun _ => e else es.lookup other := by
  induction es with
  | nil => simp
  | cons entry es ih =>
    obtain ⟨key, old⟩ := entry
    have hsame : (if key == names then (names, e) else (key, old)).1 = key := by grind
    rw [List.map_cons, List.lookup_cons, hsame, List.lookup_cons, ih]
    by_cases hother : other = key
    · subst hother
      by_cases hkey : other = names <;> simp [hkey]
    · simp [beq_eq_false_iff_ne.mpr hother]

lemma lookup_put (t : FileTree) (names : FileNames) (bytes : List UInt8) (other : FileNames) :
    (t.put names bytes).entries.lookup other =
      if other = names then some (.file bytes) else t.entries.lookup other := by
  rw [put]
  split
  · next hany =>
    rw [lookup_replace]
    split
    · next heq =>
      obtain ⟨entry, hmem, hkey⟩ := List.any_eq_true.mp hany
      have hsome : (t.entries.lookup names).isSome = true := by
        rw [List.lookup_isSome_iff]
        exact ⟨entry, hmem, by rwa [BEq.comm]⟩
      obtain ⟨old, hold⟩ := Option.isSome_iff_exists.mp hsome
      rw [heq, hold, Option.map_some]
    · rfl
  · next hany =>
    have hnone : t.entries.lookup names = none := by
      rw [List.lookup_eq_none_iff]
      intro entry hmem
      rw [bne_iff_ne]
      rintro rfl
      exact hany (List.any_eq_true.mpr ⟨entry, hmem, beq_self_eq_true _⟩)
    rw [List.lookup_append, List.lookup_cons, List.lookup_nil]
    by_cases heq : other = names
    · rw [heq, hnone]
      simp
    · simp [heq, beq_eq_false_iff_ne.mpr heq]

/-- A file put where no directory is stands there, and everything else is as it was. -/
lemma entry?_put (h : t.entry? names ≠ some .directory) (bytes : List UInt8)
    (other : FileNames) :
    FileTree.entry? (t.put names bytes) other =
      if other = names then some (.file bytes) else t.entry? other := by
  unfold FileTree.entry?
  rw [lookup_put]
  split
  · next hup =>
    rw [if_neg]
    rintro rfl
    exact h (if_pos hup)
  · rfl

/-- Names that led to a place still do after a file was put there. -/
lemma follow_put (h : t.follow start rest = .ok names) (hfree : t.entry? names ≠ some .directory)
    (bytes : List UInt8) : (t.put names bytes).follow start rest = .ok names := by
  induction rest generalizing start with
  | nil => exact h
  | cons name rest ih =>
    rw [follow] at h ⊢
    cases hentry : t.entry? start with
    | none => simp [hentry] at h
    | some e =>
      cases e with
      | file _ => simp [hentry] at h
      | directory =>
        -- the names lead through directories, and no file was put in the place of one
        have hne : start ≠ names := fun heq => hfree (heq ▸ hentry)
        rw [entry?_put hfree, if_neg hne, hentry]
        rw [hentry] at h
        dsimp only at h ⊢
        split at h
        · cases h
        · next hlong =>
          rw [if_neg hlong]
          exact ih h

/-! ### Writing at a path -/

/-- The path can be opened for writing, and leads to the given names: it asks for no directory, and
none is there. -/
structure WritableAt (t : FileTree) (path : String) (names : FileNames) : Prop where
  asksForFile : path.endsWith "/" = false
  located : t.locate path (path.splitOn "/") = .ok names
  free : t.entry? names ≠ some .directory

/-- A path is opened for writing exactly if it can be. -/
lemma place_eq_ok_iff : t.place path = .ok names ↔ t.WritableAt path names := by
  constructor
  · intro h
    rw [place] at h
    split at h
    · dsimp only at h
      split at h <;> cases h
    · next hend =>
      split at h
      · cases h
      · next hlocated =>
        split at h
        · cases h
        · next hfree =>
          cases h
          exact ⟨Bool.eq_false_iff.mpr hend, hlocated, hfree⟩
  · intro h
    simp [place, h.asksForFile, h.located, h.free]

lemma WritableAt.ne_empty (h : t.WritableAt path names) : path ≠ "" := by
  rintro rfl
  have hlocated := h.located
  rw [locate, if_pos rfl] at hlocated
  cases hlocated

lemma WritableAt.unique {names' : FileNames} (h : t.WritableAt path names)
    (h' : t.WritableAt path names') : names = names' :=
  Except.ok.inj (h.located.symm.trans h'.located)

/-- A path leads to the same place after a file was put there. -/
lemma WritableAt.put (h : t.WritableAt path names) (bytes : List UInt8) :
    (t.put names bytes).WritableAt path names := by
  refine ⟨h.asksForFile, ?_, ?_⟩
  · have hlocated := h.located
    rw [locate, if_neg h.ne_empty] at hlocated ⊢
    split at hlocated
    · cases hlocated
    · next hlong =>
      rw [if_neg hlong]
      exact follow_put hlocated h.free bytes
  · rw [entry?_put h.free, if_pos rfl]
    simp

/-- What is written is put in the place of the opened file, which is empty, as far as it is
stored. -/
lemma WritableAt.write_eq (h : t.WritableAt path names) (bytes : List UInt8)
    (transfer : Transfer) : t.write path bytes transfer =
      (transfer.outcome, (t.put names []).put names (transfer.stored bytes)) := by
  simp only [write, place_eq_ok_iff.mpr h]

/-- Writing changes the file at the path, and nothing else. -/
lemma WritableAt.entry?_write (h : t.WritableAt path names) (bytes : List UInt8)
    (transfer : Transfer) (other : FileNames) :
    FileTree.entry? (t.write path bytes transfer).2 other =
      if other = names then some (.file (transfer.stored bytes)) else t.entry? other := by
  rw [h.write_eq, entry?_put (h.put []).free, entry?_put h.free]
  split <;> rfl

/-- What is stored of what has been written at a path is read there. -/
lemma WritableAt.read_write (h : t.WritableAt path names) (bytes : List UInt8)
    (transfer : Transfer) :
    (t.write path bytes transfer).2.read path = .ok (transfer.stored bytes) := by
  have hentry := h.entry?_write bytes transfer names
  have hlocated := ((h.put []).put (transfer.stored bytes)).located
  rw [h.write_eq, if_pos rfl] at hentry
  rw [h.write_eq, read, hlocated]
  simp only [hentry]

/-- Where nothing can be opened for writing, nothing is written. -/
lemma write_of_not_writableAt (h : ∀ names, ¬ t.WritableAt path names) (bytes : List UInt8)
    (transfer : Transfer) :
    ∃ f, t.write path bytes transfer = (.error (.opening f path), t) := by
  cases hplace : t.place path with
  | ok names => exact absurd (place_eq_ok_iff.mp hplace) (h names)
  | error f => exact ⟨f, by simp only [write, hplace]⟩

end Barnamaj.FileTree
