import BindingMarkup.Command.Path
import BindingMarkup.Outline.Builder
import Mathlib

/-!
# BindingMarkup — every path names a module

A module that is named after its file becomes a variable of the generated
script, so whatever the path looks like, its name has to be one that the
script can declare. A path may end in slashes, be empty or consist of dots;
a file name may start with a digit or with a dot, or have no character in
common with an identifier.

* `isModuleName_moduleName` — every module name is made of ASCII letters,
  digits, `_` and `$`, and begins with a capital, `_` or `$`.
* `moduleName_eq_self_iff` — these are exactly the texts that name
  themselves. Read as a path, such a text is one segment without a dot, so
  nothing is cut off, and no character of it is replaced.
* `IsModuleName.not_mem_reservedWords` — the words that a script keeps for
  itself begin with a small letter, so no module name is among them.

`moduleName_usable` puts them together.
-/

namespace BindingMarkup.Command

open Text

/-- The characters that a module name begins with. -/
def StartsModule (c : Char) : Prop :=
  c.isUpper = true ∨ c = '_' ∨ c = '$'

/-- A text that can be the name of a module. -/
structure IsModuleName (name : String) : Prop where
  ne_empty : name ≠ ""
  chars : ∀ c ∈ name.toList, c.isAlphanum = true ∨ c = '_' ∨ c = '$'
  start : ∀ c ∈ name.toList.head?, StartsModule c

/-- The words that a script cannot use as names: keywords and literals, and the words that
are or were kept for later. -/
def reservedWords : List String := [
  "abstract", "arguments", "await", "boolean", "break", "byte", "case", "catch", "char", "class",
  "const", "continue", "debugger", "default", "delete", "do", "double", "else", "enum", "eval",
  "export", "extends", "false", "final", "finally", "float", "for", "function", "goto", "if",
  "implements", "import", "in", "instanceof", "int", "interface", "let", "long", "native", "new",
  "null", "package", "private", "protected", "public", "return", "short", "static", "super",
  "switch", "synchronized", "this", "throw", "throws", "transient", "true", "try", "typeof", "var",
  "void", "volatile", "while", "with", "yield"]

-- ---------------------------------------------------------------------------
-- Characters
-- ---------------------------------------------------------------------------

theorem isModuleChar_iff {c : Char} :
    isModuleChar c = true ↔ c.isAlphanum = true ∨ c = '_' ∨ c = '$' := by
  simp [isModuleChar, or_assoc]

/-- Raising a character of a name leaves no small letter. -/
theorem toUpper_of_isModuleChar {c : Char} (h : isModuleChar c = true) :
    c.toUpper.isDigit = true ∨ StartsModule c.toUpper := by
  by_cases hAlpha : c.isAlpha = true
  · exact .inr (.inl (by rw [Char.isUpper_toUpper_eq_isAlpha, hAlpha]))
  · have hLower : ¬ c.isLower = true := fun hLower => hAlpha (by simp [Char.isAlpha, hLower])
    have hOther : c.isDigit = true ∨ c = '_' ∨ c = '$' := by
      simpa [isModuleChar, Char.isAlphanum, hAlpha, or_assoc] using h
    rw [Char.toUpper_eq_of_not_isLower hLower]
    exact hOther.imp_right .inr

namespace StartsModule

variable {c : Char}

/-- A module name does not start with a small letter. -/
theorem not_isLower (h : StartsModule c) : ¬ c.isLower = true := by
  rcases h with hUpper | rfl | rfl
  · exact Char.not_isLower_of_isUpper hUpper
  · decide
  · decide

/-- A module name does not start with a digit. -/
theorem not_isDigit (h : StartsModule c) : ¬ c.isDigit = true := by
  rcases h with hUpper | rfl | rfl
  · intro hDigit
    simp only [Char.isUpper, Char.isDigit, UInt32.le_iff_toNat_le, Bool.and_eq_true,
      decide_eq_true_eq] at hUpper hDigit
    have hTop : '9'.val.toNat < 'A'.val.toNat := by decide
    omega
  · decide
  · decide

theorem isModuleChar (h : StartsModule c) : isModuleChar c = true :=
  isModuleChar_iff.mpr (h.imp_left fun hUpper => by simp [Char.isAlphanum, Char.isAlpha, hUpper])

end StartsModule

-- ---------------------------------------------------------------------------
-- Every path
-- ---------------------------------------------------------------------------

/-- A first character of the right kind and others that may follow make a module name. -/
theorem isModuleName_ofList {c : Char} {rest : List Char} (hStart : StartsModule c)
    (hRest : ∀ d ∈ rest, isModuleChar d = true) : IsModuleName (String.ofList (c :: rest)) where
  ne_empty hEmpty := by simpa using congrArg String.toList hEmpty
  chars d hd := by
    rw [String.toList_ofList] at hd
    rcases List.mem_cons.mp hd with rfl | hMem
    · exact isModuleChar_iff.mp hStart.isModuleChar
    · exact isModuleChar_iff.mp (hRest d hMem)
  start := by simpa using hStart

/-- The characters of a stem become those of a name, with no small letter in front. -/
theorem moduleChars_cases (stem : List Char) :
    moduleChars stem = [] ∨
      ∃ c rest, moduleChars stem = c :: rest ∧ (c.isDigit = true ∨ StartsModule c) ∧
        ∀ d ∈ rest, isModuleChar d = true := by
  have hReplaced : ∀ c : Char, isModuleChar (if isModuleChar c then c else '_') = true := by
    intro c
    split
    · next hChar => exact hChar
    · decide
  cases stem with
  | nil => exact .inl rfl
  | cons c rest =>
    refine .inr ⟨_, _, rfl, toUpper_of_isModuleChar (hReplaced c), fun d hd => ?_⟩
    obtain ⟨e, -, rfl⟩ := List.mem_map.mp hd
    exact hReplaced e

/-- Every path gives the name of a module. -/
theorem isModuleName_moduleName (path : String) : IsModuleName (moduleName path) := by
  unfold moduleName
  rcases moduleChars_cases (stem ((fileName? path.toList).getD [])) with
    hNone | ⟨c, rest, hChars, hFirst, hRest⟩
  · rw [hNone]
    exact isModuleName_ofList (.inr (.inl rfl)) (List.forall_mem_nil _)
  · rw [hChars]
    dsimp only
    split
    · next hDigit =>
      -- the digit moves to the second place
      have hChar : isModuleChar c = true :=
        isModuleChar_iff.mpr (.inl (by simp [Char.isAlphanum, hDigit]))
      exact isModuleName_ofList (.inr (.inl rfl)) (List.forall_mem_cons.mpr ⟨hChar, hRest⟩)
    · next hDigit => exact isModuleName_ofList (hFirst.resolve_left hDigit) hRest

-- ---------------------------------------------------------------------------
-- Texts that name themselves
-- ---------------------------------------------------------------------------

/-- A path without slashes is one segment. -/
theorem segments_of_not_mem {cs : List Char} (h : '/' ∉ cs) : segments cs = [cs] := by
  induction cs with
  | nil => rfl
  | cons c rest ih =>
    rw [List.mem_cons, not_or] at h
    rw [segments, if_neg (Ne.symm h.1), ih h.2]

/-- A text without slashes and dots is the name of a file, and nothing is cut off. -/
theorem stem_fileName? {cs : List Char} (hNil : cs ≠ []) (hSlash : '/' ∉ cs) (hDot : '.' ∉ cs) :
    stem ((fileName? cs).getD []) = cs := by
  have hCurrent : cs ≠ ['.'] := fun hEq => hDot (by simp [hEq])
  have hParent : cs ≠ ['.', '.'] := fun hEq => hDot (by simp [hEq])
  have hName : fileName? cs = some cs := by
    simp [fileName?, names, segments_of_not_mem hSlash, hNil, hCurrent, hParent]
  have hNone : cs.reverse.dropWhile (· != '.') = [] := by
    rw [List.dropWhile_eq_nil_iff]
    intro c hc
    exact bne_iff_ne.mpr fun hEq => hDot (hEq ▸ List.mem_reverse.mp hc)
  rw [hName, Option.getD_some, stem, hNone]
  rfl

/-- What is a module name already stays as it is. -/
theorem moduleChars_eq_self {c : Char} {rest : List Char} (hStart : StartsModule c)
    (hRest : ∀ d ∈ rest, isModuleChar d = true) : moduleChars (c :: rest) = c :: rest := by
  have hMap : rest.map (fun d => if isModuleChar d then d else '_') = rest := by
    refine (List.map_congr_left fun d hd => ?_).trans (List.map_id rest)
    rw [if_pos (hRest d hd)]
    rfl
  rw [moduleChars, List.map_cons, if_pos hStart.isModuleChar, hMap]
  dsimp only
  rw [Char.toUpper_eq_of_not_isLower hStart.not_isLower]

namespace IsModuleName

variable {name : String}

/-- A module name, taken apart. -/
theorem exists_cons (h : IsModuleName name) :
    ∃ c rest, name.toList = c :: rest ∧ StartsModule c ∧ ∀ d ∈ rest, isModuleChar d = true := by
  obtain ⟨c, rest, hName⟩ := List.exists_cons_of_ne_nil fun hNil =>
    h.ne_empty (String.toList_eq_nil_iff.mp hNil)
  refine ⟨c, rest, hName, h.start c (by rw [hName]; rfl), fun d hd => ?_⟩
  exact isModuleChar_iff.mpr (h.chars d (by rw [hName]; exact List.mem_cons_of_mem c hd))

/-- A module name is its own module name. -/
theorem moduleName_eq (h : IsModuleName name) : moduleName name = name := by
  obtain ⟨c, rest, hName, hStart, hRest⟩ := h.exists_cons
  have hOther : ∀ d, isModuleChar d = false → d ∉ c :: rest := by
    intro d hd hMem
    rw [← hName] at hMem
    rw [isModuleChar_iff.mpr (h.chars d hMem)] at hd
    exact absurd hd (by simp)
  have hStem := stem_fileName? (List.cons_ne_nil c rest) (hOther '/' (by decide))
    (hOther '.' (by decide))
  unfold moduleName
  rw [hName, hStem, moduleChars_eq_self hStart hRest]
  dsimp only
  rw [if_neg hStart.not_isDigit, ← hName, String.ofList_toList]

/-- A module name is an identifier of the script. -/
theorem isIdentifier (h : IsModuleName name) : Draft.isIdentifier name = true := by
  obtain ⟨c, rest, hName, hStart, hRest⟩ := h.exists_cons
  have hFirst : (isAlphabetic c || c == '_' || c == '$') = true := by
    rcases hStart with hUpper | rfl | rfl
    · rw [isAlphabetic_of_isAlpha (by simp [Char.isAlpha, hUpper])]
      rfl
    · simp
    · simp
  have hNames : rest.all isNameChar = true := by
    rw [List.all_eq_true]
    intro d hd
    -- ASCII letters and digits are letters and digits of names
    rcases isModuleChar_iff.mp (hRest d hd) with hAlphanum | rfl | rfl
    · simp [isNameChar, isAlphanumeric_of_isAlphanum hAlphanum]
    · simp [isNameChar]
    · simp [isNameChar]
  unfold Draft.isIdentifier
  rw [hName]
  dsimp only
  rw [hFirst, hNames]
  rfl

/-- No reserved word is a module name: they all start with a small letter. -/
theorem not_mem_reservedWords (h : IsModuleName name) : name ∉ reservedWords := by
  have hSmall : ∀ word ∈ reservedWords, word.toList.head?.any Char.isLower = true := by
    decide
  intro hMem
  obtain ⟨c, rest, hName, hStart, -⟩ := h.exists_cons
  have hLower := hSmall name hMem
  rw [hName] at hLower
  exact hStart.not_isLower hLower

end IsModuleName

/-- The names of modules are the texts that name themselves. -/
theorem moduleName_eq_self_iff {name : String} : moduleName name = name ↔ IsModuleName name :=
  ⟨fun hSelf => hSelf ▸ isModuleName_moduleName name, IsModuleName.moduleName_eq⟩

/-- **Every path gives a usable module name.** The name is not empty, has only ASCII letters,
digits, `_` and `$`, and begins with a capital, `_` or `$`; so it is an identifier and no
reserved word. Such texts, and no others, name themselves. -/
theorem moduleName_usable (path : String) :
    IsModuleName (moduleName path) ∧ Draft.isIdentifier (moduleName path) = true ∧
      moduleName path ∉ reservedWords ∧ moduleName (moduleName path) = moduleName path ∧
      ∀ name, moduleName name = name ↔ IsModuleName name := by
  have hName := isModuleName_moduleName path
  exact ⟨hName, hName.isIdentifier, hName.not_mem_reservedWords, hName.moduleName_eq,
    fun _ => moduleName_eq_self_iff⟩

-- a file without a stem of its own, one with a digit in front, one behind slashes and dots
example : moduleName "" = "_" ∧ moduleName "a/2col.bml" = "_2col" ∧
    moduleName "ui/.main-window.bml/./" = "_main_window" := by decide +kernel

end BindingMarkup.Command
