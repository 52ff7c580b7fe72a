/-!
# BindingMarkup — string literals of the generated script

Keys, ids and method names reach the generated script as string literals
in double quotes. The quote, the backslash and the three common line
controls have short escapes; every other control character is written as
`\u` and four hexadecimal digits, which always suffices because the
control characters end at `U+009F`.
-/

namespace BindingMarkup.Text

/-- The control characters: general category `Cc`. -/
def isControl (c : Char) : Bool :=
  decide (c.toNat < 0x20) || (decide (0x7f ≤ c.toNat) && decide (c.toNat ≤ 0x9f))

/-- The hexadecimal digits of `n`, in lower case, filled up with zeros to
four places. -/
def hex4 (n : Nat) : List Char :=
  [Nat.digitChar (n / 0x1000 % 16), Nat.digitChar (n / 0x100 % 16),
    Nat.digitChar (n / 0x10 % 16), Nat.digitChar (n % 16)]

/-- How one character is written inside a literal. -/
def literalChar (c : Char) : List Char :=
  if c = '"' then ['\\', '"']
  else if c = '\\' then ['\\', '\\']
  else if c = '\n' then ['\\', 'n']
  else if c = '\r' then ['\\', 'r']
  else if c = '\t' then ['\\', 't']
  else if isControl c then '\\' :: 'u' :: hex4 c.toNat
  else [c]

/-- The characters of the literal for a text, quotes included. -/
def literalChars (cs : List Char) : List Char :=
  '"' :: cs.flatMap literalChar ++ ['"']

/-- A text as a string literal of the generated script. -/
def literal (s : String) : String :=
  String.ofList (literalChars s.toList)

theorem exists_of_mem_hex4 {c : Char} {n : Nat} (h : c ∈ hex4 n) :
    ∃ d < 16, c = Nat.digitChar d := by
  simp only [hex4, List.mem_cons, List.not_mem_nil, or_false] at h
  rcases h with rfl | rfl | rfl | rfl
  all_goals exact ⟨_, Nat.mod_lt _ (by decide), rfl⟩

end BindingMarkup.Text
