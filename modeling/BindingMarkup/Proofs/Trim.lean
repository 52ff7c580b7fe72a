import BindingMarkup.Text.Blank
import Mathlib.Data.List.DropRight

/-!
# BindingMarkup — what trimming keeps

Contexts, expressions and the marked part of a line are all trimmed texts.
The statements here say how a trim at the end sees a text that comes in
two parts: blanks at the back fall away whatever stands before them
(`trimEnd_append_of_blank`), and anything else keeps the whole front
(`trimEnd_append_of_ne_nil`). A trimmed prefix of a text is a prefix of the
trimmed text (`prefix_trimEnd`).
-/

namespace BindingMarkup.Text

theorem trimEnd_isPrefix (cs : List Char) : trimEnd cs <+: cs :=
  List.rdropWhile_prefix isBlank cs

/-- Only blanks are trimmed away. -/
theorem trimEnd_eq_nil_iff {cs : List Char} : trimEnd cs = [] ↔ ∀ c ∈ cs, isBlank c = true :=
  List.rdropWhile_eq_nil_iff

/-- A text that does not end with a blank has nothing to lose at its end. -/
theorem trimEnd_eq_self {cs : List Char} (h : ∀ c ∈ cs.getLast?, isBlank c = false) :
    trimEnd cs = cs := by
  refine List.rdropWhile_eq_self_iff.mpr fun hNil => ?_
  rw [h _ (List.getLast_mem_getLast? hNil)]
  simp

theorem trimEnd_trimEnd (cs : List Char) : trimEnd (trimEnd cs) = trimEnd cs :=
  List.rdropWhile_idempotent isBlank cs

/-- A text is its trimmed text and blanks. -/
theorem exists_trimEnd_append (cs : List Char) :
    ∃ blanks, cs = trimEnd cs ++ blanks ∧ ∀ c ∈ blanks, isBlank c = true :=
  ⟨cs.rtakeWhile isBlank, List.rdropWhile_append_rtakeWhile.symm,
    fun _ hc => List.mem_rtakeWhile_imp hc⟩

/-- Blanks at the end do not matter. -/
theorem trimEnd_append_of_blank {front back : List Char} (h : ∀ c ∈ back, isBlank c = true) :
    trimEnd (front ++ back) = trimEnd front := by
  unfold trimEnd
  rw [List.reverse_append, List.dropWhile_append_of_pos]
  intro c hc
  exact h c (List.mem_reverse.mp hc)

/-- A trim does not reach over what is not blank. -/
theorem trimEnd_append_of_ne_nil {front back : List Char} (h : trimEnd back ≠ []) :
    trimEnd (front ++ back) = front ++ trimEnd back := by
  have hReverse : (back.reverse.dropWhile isBlank).isEmpty = false := by
    rw [List.isEmpty_eq_false_iff]
    intro hNil
    exact h (by unfold trimEnd; rw [hNil]; rfl)
  unfold trimEnd
  rw [List.reverse_append, List.dropWhile_append, hReverse]
  simp

/-- A first character that is not blank stays. -/
theorem trimEnd_cons_of_not_blank {c : Char} (hc : isBlank c = false) (cs : List Char) :
    trimEnd (c :: cs) = c :: trimEnd cs := by
  by_cases hNil : trimEnd cs = []
  · rw [hNil, ← List.singleton_append, trimEnd_append_of_blank (trimEnd_eq_nil_iff.mp hNil)]
    exact trimEnd_eq_self (by simpa using hc)
  · rw [← List.singleton_append, trimEnd_append_of_ne_nil hNil]
    rfl

/-- A trimmed prefix of a text is a prefix of the trimmed text. -/
theorem prefix_trimEnd {text line : List Char} (hText : trimEnd text = text)
    (h : text <+: line) : text <+: trimEnd line := by
  obtain ⟨more, rfl⟩ := h
  by_cases hNil : trimEnd more = []
  · have hEnd : trimEnd (text ++ more) = text :=
      (trimEnd_append_of_blank (trimEnd_eq_nil_iff.mp hNil)).trans hText
    exact ⟨[], by rw [List.append_nil, hEnd]⟩
  · rw [trimEnd_append_of_ne_nil hNil]
    exact List.prefix_append text _

theorem trimStart_cons_of_not_blank {c : Char} (hc : isBlank c = false) (cs : List Char) :
    trimStart (c :: cs) = c :: cs :=
  List.dropWhile_cons_of_neg (by simp [hc])

/-- What is left is the end of the text. -/
theorem stripFront_suffix (c : Char) (cs : List Char) : stripFront c cs <:+ cs := by
  cases cs with
  | nil => exact List.suffix_rfl
  | cons d rest =>
    simp only [stripFront]
    split
    · exact List.suffix_cons d rest
    · exact List.suffix_rfl

/-- What is left is the beginning of the text. -/
theorem stripBack_isPrefix (c : Char) (cs : List Char) : stripBack c cs <+: cs := by
  rw [← List.reverse_suffix, stripBack, List.reverse_reverse]
  exact stripFront_suffix c cs.reverse

/-- Nothing falls away where the text ends otherwise. -/
theorem stripBack_eq_self {c : Char} {cs : List Char} (h : cs.getLast? ≠ some c) :
    stripBack c cs = cs := by
  unfold stripBack
  rw [← List.head?_reverse] at h
  cases hReverse : cs.reverse with
  | nil => rw [List.reverse_eq_nil_iff.mp hReverse]; rfl
  | cons d rest =>
    rw [hReverse, List.head?_cons, ne_eq, Option.some.injEq] at h
    rw [stripFront, if_neg h, ← hReverse, List.reverse_reverse]

/-- Only the last character can fall away. -/
theorem stripBack_cons_of_ne {c d : Char} (h : c ≠ d) (cs : List Char) :
    stripBack d (c :: cs) = c :: stripBack d cs := by
  unfold stripBack
  rw [List.reverse_cons]
  cases cs.reverse with
  | nil => simp [stripFront, h]
  | cons e rest =>
    simp only [List.cons_append, stripFront]
    split <;> simp

end BindingMarkup.Text
