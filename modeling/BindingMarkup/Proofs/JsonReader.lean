import BindingMarkup.Text.Json

/-!
# BindingMarkup — reading JSON text back

The command writes JSON for other programs, so what counts is that they can
get the value back. Here is a reader for it. It goes over the text once,
one character at a time, with a stack of the brackets that are open
(`Reader.step`); blanks between the pieces do not matter to it, so it does
not depend on the layout.

A number is the one piece that does not show where it ends. The reader
stays on it until a character comes that is no digit, and `Place.Holds` says
of a place that it stands for a finished value in all that follows.

* `runs_quote` — a string is read back from its escapes.
* `runs_write` — a value is read from its text, at every level and on every
  stack.
* `read_render` — so reading undoes writing.
-/

namespace BindingMarkup.Text.Json

-- ---------------------------------------------------------------------------
-- The reader
-- ---------------------------------------------------------------------------

/-- An open bracket with what has been read inside it. -/
inductive Open where
  | items (front : List Json)
  | members (front : List (String × Json))
  /-- Inside an object, behind a key and its colon. -/
  | member (front : List (String × Json)) (key : String)

/-- Where the reader stands with respect to the escapes of a string. -/
inductive Escape where
  | plain
  | backslash
  /-- Behind the given number of hexadecimal digits. -/
  | code (digits n : Nat)

inductive Place where
  /-- A value is due, or the end of an empty array or object. -/
  | due
  | string (front : List Char) (escape : Escape)
  | number (n : Nat)
  /-- Inside the word for a missing value, of which `rest` is still due. -/
  | word (rest : List Char)
  | finished (value : Json)

structure Reader where
  place : Place
  /-- The open brackets, the innermost first. -/
  stack : List Open

/-- The character for which another one stands behind a backslash. -/
def escaped? (c : Char) : Option Char :=
  if c = '"' ∨ c = '\\' ∨ c = '/' then some c
  else if c = 'b' then some '\x08'
  else if c = 'f' then some '\x0c'
  else if c = 'n' then some '\n'
  else if c = 'r' then some '\r'
  else if c = 't' then some '\t'
  else none

def digitValue? (base : Nat) (c : Char) : Option Nat :=
  (List.range base).find? fun d => Nat.digitChar d == c

/-- One more character of a string. -/
def Place.inString (front : List Char) : Escape → Char → Option Place
  | .plain, c =>
    if c = '"' then some (.finished (.string (String.ofList front)))
    else if c = '\\' then some (.string front .backslash)
    else some (.string (front ++ [c]) .plain)
  | .backslash, c =>
    if c = 'u' then some (.string front (.code 0 0))
    else (escaped? c).map fun d => .string (front ++ [d]) .plain
  | .code digits n, c =>
    (digitValue? 16 c).map fun d =>
      if digits = 3 then .string (front ++ [Char.ofNat (16 * n + d)]) .plain
      else .string front (.code (digits + 1) (16 * n + d))

namespace Reader

/-- A character where a value is due. -/
def start (stack : List Open) (c : Char) : Option Reader :=
  match digitValue? 10 c with
  | some d => some ⟨.number d, stack⟩
  | none =>
    if c.isWhitespace then some ⟨.due, stack⟩
    else if c = '"' then some ⟨.string [] .plain, stack⟩
    else if c = 'n' then some ⟨.word ['u', 'l', 'l'], stack⟩
    else if c = '[' then some ⟨.due, .items [] :: stack⟩
    else if c = '\x7b' then some ⟨.due, .members [] :: stack⟩
    else
      match c, stack with
      | ']', .items [] :: stack => some ⟨.finished (.array []), stack⟩
      | '\x7d', .members [] :: stack => some ⟨.finished (.object []), stack⟩
      | _, _ => none

/-- A character behind a value. -/
def proceed (value : Json) (stack : List Open) (c : Char) : Option Reader :=
  if c.isWhitespace then some ⟨.finished value, stack⟩
  else
    match c, stack, value with
    | ',', .items front :: stack, _ => some ⟨.due, .items (front ++ [value]) :: stack⟩
    | ']', .items front :: stack, _ => some ⟨.finished (.array (front ++ [value])), stack⟩
    | ':', .members front :: stack, .string key => some ⟨.due, .member front key :: stack⟩
    | ',', .member front key :: stack, _ =>
      some ⟨.due, .members (front ++ [(key, value)]) :: stack⟩
    | '\x7d', .member front key :: stack, _ =>
      some ⟨.finished (.object (front ++ [(key, value)])), stack⟩
    | _, _, _ => none

def step : Reader → Char → Option Reader
  | ⟨.due, stack⟩, c => start stack c
  | ⟨.string front escape, stack⟩, c => (Place.inString front escape c).map (⟨·, stack⟩)
  | ⟨.number n, stack⟩, c =>
    match digitValue? 10 c with
    | some d => some ⟨.number (10 * n + d), stack⟩
    | none => proceed (.number n) stack c
  | ⟨.word rest, stack⟩, c =>
    match rest with
    | [] => none
    | [d] => if c = d then some ⟨.finished .null, stack⟩ else none
    | d :: rest => if c = d then some ⟨.word rest, stack⟩ else none
  | ⟨.finished value, stack⟩, c => proceed value stack c

/-- The value of a reader at the end of the text. -/
def value? : Reader → Option Json
  | ⟨.finished value, []⟩ => some value
  | ⟨.number n, []⟩ => some (.number n)
  | _ => none

end Reader

/-- The value that a text stands for, if it is one. -/
def read (text : String) : Option Json :=
  (text.toList.foldlM Reader.step ⟨.due, []⟩).bind Reader.value?

-- ---------------------------------------------------------------------------
-- Runs
-- ---------------------------------------------------------------------------

/-- The text takes the reader from one state to the other. -/
def Runs (reader : Reader) (cs : List Char) (next : Reader) : Prop :=
  cs.foldlM Reader.step reader = some next

/-- Two runs behind each other are one run. -/
theorem Runs.append {first second third : Reader} {front back : List Char}
    (hFront : Runs first front second) (hBack : Runs second back third) :
    Runs first (front ++ back) third := by
  unfold Runs at hFront hBack ⊢
  rw [List.foldlM_append, hFront]
  exact hBack

theorem Runs.cons {first second third : Reader} {c : Char} {rest : List Char}
    (hHere : first.step c = some second) (hRest : Runs second rest third) :
    Runs first (c :: rest) third := by
  unfold Runs at hRest ⊢
  rw [List.foldlM_cons, hHere]
  exact hRest

/-- A reader that stays where it is on blanks passes over a line break. -/
theorem runs_newLine {reader : Reader} (hBreak : reader.step '\n' = some reader)
    (hSpace : reader.step ' ' = some reader) (level : Nat) :
    Runs reader (newLine level) reader := by
  have hSpaces : ∀ n, Runs reader (List.replicate n ' ') reader := by
    intro n
    induction n with
    | zero => rfl
    | succ n ih => exact .cons hSpace ih
  exact .cons hBreak (hSpaces (2 * level))

-- ---------------------------------------------------------------------------
-- Strings and numbers
-- ---------------------------------------------------------------------------

theorem digitValue?_digitChar_hex : ∀ d < 16, digitValue? 16 (Nat.digitChar d) = some d := by
  decide

theorem digitValue?_digitChar : ∀ d < 10, digitValue? 10 (Nat.digitChar d) = some d := by
  decide

/-- A digit of a code is added to those before it. -/
theorem step_code {front : List Char} {digits n d : Nat} (hd : d < 16) (hDigits : digits ≠ 3)
    (stack : List Open) :
    Reader.step ⟨.string front (.code digits n), stack⟩ (Nat.digitChar d) =
      some ⟨.string front (.code (digits + 1) (16 * n + d)), stack⟩ := by
  simp [Reader.step, Place.inString, digitValue?_digitChar_hex d hd, hDigits]

/-- Four hexadecimal digits are read as the character that they number. -/
theorem runs_hex4 (front : List Char) {n : Nat} (h : n < 0x10000) (stack : List Open) :
    Runs ⟨.string front (.code 0 0), stack⟩ (hex4 n)
      ⟨.string (front ++ [Char.ofNat n]) .plain, stack⟩ := by
  have hLast : digitValue? 16 (Nat.digitChar (n % 16)) = some (n % 16) :=
    digitValue?_digitChar_hex _ (by omega)
  have hWhole : 16 * (16 * (16 * (n / 0x1000 % 16) + n / 0x100 % 16) + n / 0x10 % 16) + n % 16 =
      n := by omega
  refine .cons (step_code (by omega) (by decide) stack) ?_
  refine .cons (step_code (by omega) (by decide) stack) ?_
  refine .cons (step_code (by omega) (by decide) stack) (.cons ?_ rfl)
  simp [Reader.step, Place.inString, hLast, hWhole]

/-- A character is read back from the way it is written. -/
theorem runs_stringChar (front : List Char) (c : Char) (stack : List Open) :
    Runs ⟨.string front .plain, stack⟩ (stringChar c) ⟨.string (front ++ [c]) .plain, stack⟩ := by
  unfold stringChar
  split
  · next h => rw [h]; rfl
  split
  · next h => rw [h]; rfl
  split
  · next h => rw [h]; rfl
  split
  · next h => rw [h]; rfl
  split
  · next h => rw [h]; rfl
  split
  · next h => rw [h]; rfl
  split
  · next h => rw [h]; rfl
  split
  · next hSmall =>
    -- the other control characters are written as codes
    have hCode : c.toNat < 0x10000 := by omega
    have hDigits := runs_hex4 front hCode stack
    rw [Char.ofNat_toNat] at hDigits
    exact .cons rfl (.cons rfl hDigits)
  · next hQuote hBackslash _ _ _ _ _ _ =>
    refine .cons ?_ rfl
    simp [Reader.step, Place.inString, hQuote, hBackslash]

/-- A string is read from its opening to its closing mark. -/
theorem runs_quote (s : String) (stack : List Open) :
    Runs ⟨.due, stack⟩ (quote s) ⟨.finished (.string s), stack⟩ := by
  -- what has been read of the string grows at its end, so the front is general
  have hChars : ∀ (cs front : List Char), Runs ⟨.string front .plain, stack⟩
      (cs.flatMap stringChar) ⟨.string (front ++ cs) .plain, stack⟩ := by
    intro cs
    induction cs with
    | nil =>
      intro front
      rw [List.append_nil]
      rfl
    | cons c rest ih =>
      intro front
      have hMore := (runs_stringChar front c stack).append (ih (front ++ [c]))
      rwa [List.append_assoc, List.singleton_append] at hMore
  have hEnd : Runs ⟨.string s.toList .plain, stack⟩ ['"'] ⟨.finished (.string s), stack⟩ := by
    refine .cons ?_ rfl
    simp [Reader.step, Place.inString]
  have hStart : Runs ⟨.due, stack⟩ ['"'] ⟨.string [] .plain, stack⟩ := rfl
  exact (hStart.append (hChars s.toList [])).append hEnd

/-- The digits of a number are read one by one, the number so far with them. -/
theorem runs_toDigits (n : Nat) (stack : List Open) :
    Runs ⟨.due, stack⟩ (Nat.toDigits 10 n) ⟨.number n, stack⟩ := by
  induction n using Nat.strongRecOn with
  | _ n ih =>
    by_cases hOne : n < 10
    · rw [Nat.toDigits_of_lt_base hOne]
      refine .cons ?_ rfl
      show Reader.start stack (Nat.digitChar n) = some ⟨.number n, stack⟩
      unfold Reader.start
      rw [digitValue?_digitChar n hOne]
    · -- the last digit is read behind the number without it
      have hShort := ih (n / 10) (by omega)
      have hLast := digitValue?_digitChar (n % 10) (by omega)
      rw [Nat.toDigits_of_base_le (by decide) (by omega)]
      refine hShort.append (.cons ?_ rfl)
      rw [Reader.step, hLast]
      show some (Reader.mk (.number (10 * (n / 10) + n % 10)) stack) = some ⟨.number n, stack⟩
      rw [Nat.div_add_mod]

-- ---------------------------------------------------------------------------
-- Values
-- ---------------------------------------------------------------------------

/-- The place is the end of the value in all that follows: a number is over as soon as
something else than a digit comes. -/
def Place.Holds (place : Place) (value : Json) : Prop :=
  place = .finished value ∨ ∃ n, value = .number n ∧ place = .number n

/-- What stands behind a value. -/
theorem Place.Holds.runs {place : Place} {value : Json} (h : place.Holds value)
    {stack : List Open} {c : Char} {rest : List Char} {next : Reader}
    (hc : digitValue? 10 c = none) (hRuns : Runs ⟨.finished value, stack⟩ (c :: rest) next) :
    Runs ⟨place, stack⟩ (c :: rest) next := by
  rcases h with rfl | ⟨n, rfl, rfl⟩
  · exact hRuns
  · have hStep : Reader.step ⟨.number n, stack⟩ c =
        Reader.step ⟨.finished (.number n), stack⟩ c := by
      simp [Reader.step, hc]
    unfold Runs at hRuns ⊢
    rwa [List.foldlM_cons, hStep, ← List.foldlM_cons]

theorem Place.Holds.value? {place : Place} {value : Json} (h : place.Holds value) :
    Reader.value? ⟨place, []⟩ = some value := by
  rcases h with rfl | ⟨n, rfl, rfl⟩
  · rfl
  · rfl

/-- The comma behind an item. -/
theorem runs_nextItem {place : Place} {value : Json} (h : place.Holds value)
    (front : List Json) (stack : List Open) (level : Nat) :
    Runs ⟨place, .items front :: stack⟩ (',' :: newLine level)
      ⟨.due, .items (front ++ [value]) :: stack⟩ :=
  h.runs rfl (.cons rfl (runs_newLine rfl rfl level))

/-- The comma behind a member. -/
theorem runs_nextMember {place : Place} {value : Json} (h : place.Holds value)
    (front : List (String × Json)) (key : String) (stack : List Open) (level : Nat) :
    Runs ⟨place, .member front key :: stack⟩ (',' :: newLine level)
      ⟨.due, .members (front ++ [(key, value)]) :: stack⟩ :=
  h.runs rfl (.cons rfl (runs_newLine rfl rfl level))

/-- A key and its colon lead to the value that belongs to it. -/
theorem runs_key (front : List (String × Json)) (key : String) (stack : List Open) :
    Runs ⟨.due, .members front :: stack⟩ (quote key ++ [':', ' '])
      ⟨.due, .member front key :: stack⟩ :=
  (runs_quote key _).append (.cons rfl (.cons rfl rfl))

mutual

/-- **A value is read from its text**, whatever is open around it. -/
theorem runs_write (level : Nat) (stack : List Open) :
    ∀ value : Json, ∃ place, place.Holds value ∧
      Runs ⟨.due, stack⟩ (write level value) ⟨place, stack⟩
  | .null => ⟨.finished .null, .inl rfl, by rw [write]; rfl⟩
  | .number n => ⟨.number n, .inr ⟨n, rfl, rfl⟩, by rw [write]; exact runs_toDigits n stack⟩
  | .string s => ⟨.finished (.string s), .inl rfl, by rw [write]; exact runs_quote s stack⟩
  | .array [] => ⟨.finished (.array []), .inl rfl, by rw [write]; rfl⟩
  | .array (item :: more) => by
    obtain ⟨place, hHolds, hItem⟩ := runs_write (level + 1) (.items [] :: stack) item
    have hOpen : Runs ⟨.due, stack⟩ ('[' :: newLine (level + 1)) ⟨.due, .items [] :: stack⟩ :=
      .cons rfl (runs_newLine rfl rfl (level + 1))
    have hMore := runs_items (level + 1) level stack hHolds [] more
    have hAll := (hOpen.append hItem).append hMore
    refine ⟨.finished (.array (item :: more)), .inl rfl, ?_⟩
    rw [write]
    simpa only [List.append_assoc, List.cons_append, List.nil_append] using hAll
  | .object [] => ⟨.finished (.object []), .inl rfl, by rw [write]; rfl⟩
  | .object ((key, value) :: more) => by
    obtain ⟨place, hHolds, hValue⟩ := runs_write (level + 1) (.member [] key :: stack) value
    have hOpen : Runs ⟨.due, stack⟩ ('\x7b' :: newLine (level + 1))
        ⟨.due, .members [] :: stack⟩ :=
      .cons rfl (runs_newLine rfl rfl (level + 1))
    have hMore := runs_members (level + 1) level stack hHolds [] key more
    have hAll := ((hOpen.append (runs_key [] key stack)).append hValue).append hMore
    refine ⟨.finished (.object ((key, value) :: more)), .inl rfl, ?_⟩
    rw [write]
    simpa only [List.append_assoc, List.cons_append, List.nil_append] using hAll

/-- The items behind one, and the end of the array. -/
theorem runs_items (level outer : Nat) (stack : List Open) {place : Place} {value : Json}
    (h : place.Holds value) (front : List Json) :
    ∀ more : List Json, Runs ⟨place, .items front :: stack⟩
      (writeItems level more ++ (newLine outer ++ [']']))
      ⟨.finished (.array (front ++ value :: more)), stack⟩
  | [] => by
    rw [writeItems, List.nil_append]
    have hBreak : Runs ⟨.finished value, .items front :: stack⟩ (newLine outer)
        ⟨.finished value, .items front :: stack⟩ := runs_newLine rfl rfl outer
    exact h.runs rfl (hBreak.append (.cons rfl rfl))
  | item :: more => by
    obtain ⟨next, hHolds, hItem⟩ := runs_write level (.items (front ++ [value]) :: stack) item
    have hMore := runs_items level outer stack hHolds (front ++ [value]) more
    have hAll := ((runs_nextItem h front stack level).append hItem).append hMore
    rw [writeItems]
    simpa only [List.append_assoc, List.cons_append, List.nil_append] using hAll

/-- The members behind one, and the end of the object. -/
theorem runs_members (level outer : Nat) (stack : List Open) {place : Place} {value : Json}
    (h : place.Holds value) (front : List (String × Json)) (key : String) :
    ∀ more : List (String × Json), Runs ⟨place, .member front key :: stack⟩
      (writeMembers level more ++ (newLine outer ++ ['\x7d']))
      ⟨.finished (.object (front ++ (key, value) :: more)), stack⟩
  | [] => by
    rw [writeMembers, List.nil_append]
    have hBreak : Runs ⟨.finished value, .member front key :: stack⟩ (newLine outer)
        ⟨.finished value, .member front key :: stack⟩ := runs_newLine rfl rfl outer
    exact h.runs rfl (hBreak.append (.cons rfl rfl))
  | (nextKey, nextValue) :: more => by
    obtain ⟨next, hHolds, hValue⟩ :=
      runs_write level (.member (front ++ [(key, value)]) nextKey :: stack) nextValue
    have hMore := runs_members level outer stack hHolds (front ++ [(key, value)]) nextKey more
    have hAll := (((runs_nextMember h front key stack level).append
      (runs_key _ nextKey stack)).append hValue).append hMore
    rw [writeMembers]
    simpa only [List.append_assoc, List.cons_append, List.nil_append] using hAll

end

/-- **Reading undoes writing.** -/
theorem read_render (value : Json) : read value.render = some value := by
  obtain ⟨place, hHolds, hRuns⟩ := runs_write 0 [] value
  unfold Runs at hRuns
  rw [read, render, String.toList_ofList, hRuns]
  exact hHolds.value?

end BindingMarkup.Text.Json
