import BindingMarkup.Proofs.Printing

/-!
# BindingMarkup — the variables of a running script

To say what a name denotes in a script one has to run it. A `Machine` runs
the strokes of a function one after another. It knows the functions that
are running, the innermost first, each with its own variables, and numbers
the objects that are constructed. What a stroke does is read off its text.

* A variable belongs to the whole function that declares it, wherever the
  declaration stands (`hoisted`). A name is looked up from the innermost
  function outwards, and an assignment goes to the variable that the look-up
  finds (`lookup`, `write`).
* The function around an element runs where it stands. A function with a
  name is only defined there; it runs when it is called, and until then its
  strokes are passed over (`Machine.skipping`).
* Constructing an object changes no variable of the functions that are
  running. Where a function of the script is what constructs it, this is no
  assumption but what a call of that function leaves behind
  (`Outline.IsTree.call_node`).

Strokes are put together with `Passes`: a run over the front of a list of
strokes ends in some state, and nothing went wrong on the way. What may have
changed then is `Settles`.
-/

namespace BindingMarkup.Script

open Text

-- ---------------------------------------------------------------------------
-- What a stroke says
-- ---------------------------------------------------------------------------

/-- The name and the value in a line `var name = value`. -/
def initialization? : List Char → Option (String × List Char)
  | 'v' :: 'a' :: 'r' :: ' ' :: rest =>
    some (String.ofList (rest.takeWhile (· != ' ')), (rest.dropWhile (· != ' ')).drop 3)
  | _ => none

/-- The names between the last brackets of a line. -/
def parameters (text : List Char) : List String :=
  let inside := ((text.reverse.dropWhile (· != ')')).drop 1).takeWhile (· != '(')
  ((inside.reverse.splitOn ',').map fun name => String.ofList (trim name)).filter (· != "")

namespace Stroke

/-- The variables that a stroke declares in the function around it. -/
def names : Stroke → List String
  | declare ids => ids
  | line text => (initialization? text.toList).toList.map Prod.fst
  | opening _ text => (initialization? text.toList).toList.map Prod.fst
  | _ => []

/-- The variables that a stroke declares or assigns because a node has an id. -/
def idNames : Stroke → List String
  | declare ids => ids
  | assign id => [id]
  | line text =>
    match initialization? text.toList with
    | some (name, value) => if value = "elem;".toList then [name] else []
    | none => []
  | _ => []

/-- The stroke needs the object under construction: it attaches something to it, keeps
it or returns it. The object that a child is added to is needed before the function
around the child runs, so this is up to the opening stroke. -/
def usesElem : Stroke → Bool
  | line text => "elem.".toList.isPrefixOf text.toList || text == "return elem;" ||
      (initialization? text.toList).any (·.2 == "elem;".toList)
  | opening _ text => "elem.".toList.isPrefixOf text.toList
  | assign _ => true
  | _ => false

/-- An initialization binds one name. -/
theorem names_line {text name : String} {value : List Char}
    (h : initialization? text.toList = some (name, value)) : (line text).names = [name] := by
  rw [names, h]
  rfl

/-- Lines that initialize nothing bind no name. -/
theorem names_map_line {texts : List String}
    (h : ∀ text ∈ texts, initialization? text.toList = none) :
    (texts.map line).flatMap names = [] := by
  rw [List.flatMap_eq_nil_iff, List.forall_mem_map]
  intro text hText
  rw [names, h text hText]
  rfl

theorem idNames_map_line {texts : List String}
    (h : ∀ text ∈ texts, initialization? text.toList = none) :
    (texts.map line).flatMap idNames = [] := by
  rw [List.flatMap_eq_nil_iff, List.forall_mem_map]
  intro text hText
  rw [idNames, h text hText]

/-- A line that sets a variable is no call. -/
theorem not_isPrefixOf_of_initialization? {text : List Char} {name : String} {value : List Char}
    (h : initialization? text = some (name, value)) : "elem.".toList.isPrefixOf text = false := by
  unfold initialization? at h
  split at h
  · rfl
  · exact absurd h (by simp)

/-- A line that initializes a variable uses `elem` only as the whole value. -/
theorem usesElem_line {text name : String} {value : List Char}
    (h : initialization? text.toList = some (name, value)) :
    (line text).usesElem = (value == "elem;".toList) := by
  have hReturn : (text == "return elem;") = false := by
    refine beq_eq_false_iff_ne.mpr ?_
    rintro rfl
    exact absurd h (by simp [initialization?])
  rw [usesElem, hReturn, not_isPrefixOf_of_initialization? h, h]
  rfl

end Stroke

/-- The variables that are declared up to the end of the function, by strokes that are
`depth` functions inside it. -/
def hoisted : Nat → List Stroke → List String
  | _, [] => []
  | depth, stroke :: more =>
    match stroke.step? depth with
    -- This closes the function itself.
    | none => []
    | some next => (if depth = 0 then stroke.names else []) ++ hoisted next more

-- ---------------------------------------------------------------------------
-- Variables
-- ---------------------------------------------------------------------------

/-- What a variable holds. -/
inductive Value where
  | undefined
  | argument
  | function
  /-- The root object of the unit. -/
  | root
  /-- One of the objects that the machine has constructed. -/
  | object (number : Nat)
  deriving DecidableEq, Repr

/-- A function that is running, with its variables and the object that it has
constructed. -/
structure Activation where
  vars : String → Option Value
  made : Option Nat

namespace Activation

def set (a : Activation) (name : String) (value : Value) : Activation :=
  { a with vars := fun x => if x = name then some value else a.vars x }

/-- A function when it is called, by its first line and the strokes behind it. -/
def start (head : String) (body : List Stroke) : Activation where
  vars := fun x =>
    if x ∈ parameters head.toList then some .argument
    else if x ∈ hoisted 0 body then some .undefined
    else none
  made := none

@[simp]
theorem vars_set_self (a : Activation) (name : String) (value : Value) :
    (a.set name value).vars name = some value :=
  if_pos rfl

@[simp]
theorem vars_set_of_ne (a : Activation) {name x : String} (h : x ≠ name) (value : Value) :
    (a.set name value).vars x = a.vars x :=
  if_neg h

/-- A function starts with its parameters and the variables declared in its body. -/
theorem isSome_vars_start {head : String} {body : List Stroke} {x : String} :
    ((start head body).vars x).isSome = true ↔
      x ∈ parameters head.toList ∨ x ∈ hoisted 0 body := by
  simp only [start]
  split_ifs with hParameter hHoisted
  · simp [hParameter]
  · simp [hHoisted]
  · simp [hParameter, hHoisted]

/-- The function has constructed its object. -/
def constructed (a : Activation) (n : Nat) : Activation :=
  { a.set "elem" (.object n) with made := some n }

/-- A construction gives a value to `elem` and binds no new name. -/
theorem isSome_vars_constructed {a : Activation} (h : (a.vars "elem").isSome = true) (n : Nat)
    (x : String) : ((a.constructed n).vars x).isSome = (a.vars x).isSome := by
  show ((a.set "elem" (.object n)).vars x).isSome = (a.vars x).isSome
  by_cases hElem : x = "elem"
  · rw [hElem, a.vars_set_self, h]
    rfl
  · rw [a.vars_set_of_ne hElem]

end Activation

/-- The value of a name, in the innermost function that has a variable of that name. -/
def lookup (frames : List Activation) (name : String) : Option Value :=
  frames.findSome? (·.vars name)

/-- Assigns to the variable that a look-up of the name finds. -/
def write (name : String) (value : Value) : List Activation → List Activation
  | [] => []
  | a :: outer =>
    if (a.vars name).isSome then a.set name value :: outer else a :: write name value outer

/-- In the innermost function `elem` denotes the object that this function has
constructed. -/
def OwnsElem : List Activation → Prop
  | [] => False
  | a :: _ => a.made.isSome ∧ a.vars "elem" = a.made.map .object

-- ---------------------------------------------------------------------------
-- Runs
-- ---------------------------------------------------------------------------

structure Machine where
  /-- The functions that are running, the innermost first. -/
  frames : List Activation
  /-- How many objects have been constructed. -/
  count : Nat
  /-- How many functions are open around the next stroke that are only defined. -/
  skipping : Nat

namespace Machine

def enter (m : Machine) (head : String) (body : List Stroke) : Machine :=
  { m with frames := .start head body :: m.frames }

def write (m : Machine) (name : String) (value : Value) : Machine :=
  { m with frames := Script.write name value m.frames }

/-- Keeps what `elem` denotes under a name. -/
def keep (m : Machine) (name : String) : Machine :=
  m.write name ((lookup m.frames "elem").getD .undefined)

def construct (m : Machine) (name : String) : Machine where
  frames := (Script.write name (.object m.count) m.frames).modifyHead
    fun a => { a with made := some m.count }
  count := m.count + 1
  skipping := m.skipping

/-- What `var name = value` does. -/
def introduce (m : Machine) (name : String) (value : List Char) : Machine :=
  if "new ".toList.isPrefixOf value then m.construct name
  else if value = ['\x7b'] then m.write name .root
  else if value = "elem;".toList then m.keep name
  -- A script gives a variable no other value.
  else m.write name .undefined

/-- What a stroke does, with the strokes behind it. -/
def perform (m : Machine) (rest : List Stroke) : Stroke → Machine
  | .declare _ => m
  | .assign id => m.keep id
  | .line text =>
    match initialization? text.toList with
    | some (name, value) => m.introduce name value
    | none => m
  | .opening _ text =>
    match initialization? text.toList with
    | some (name, _) => { m.write name .function with skipping := 1 }
    | none => m.enter text rest
  | .closing _ => { m with frames := m.frames.tail }

def step (m : Machine) (stroke : Stroke) (rest : List Stroke) : Machine :=
  if m.skipping = 0 then m.perform rest stroke
  else { m with skipping := stroke.levelAfter m.skipping }

def run (m : Machine) : List Stroke → Machine
  | [] => m
  | stroke :: rest => run (m.step stroke rest) rest

/-- The strokes that are run, each with the state before it. -/
def trace (m : Machine) : List Stroke → List (Machine × Stroke)
  | [] => []
  | stroke :: rest =>
    if m.skipping = 0 then (m, stroke) :: trace (m.step stroke rest) rest
    else trace (m.step stroke rest) rest

/-- The state in which the strokes of a function start to run when it is called. -/
def called (outer : List Activation) (count : Nat) (strokes : List Stroke) : Machine :=
  enter ⟨outer, count, 0⟩ (strokes.head?.elim "" Stroke.text) strokes.tail

end Machine

/-- The strokes that a call of a function runs, each with the state before it. -/
def callTrace (outer : List Activation) (count : Nat) (strokes : List Stroke) :
    List (Machine × Stroke) :=
  (Machine.called outer count strokes).trace strokes.tail

/-- The state behind a call of a function. -/
def callResult (outer : List Activation) (count : Nat) (strokes : List Stroke) : Machine :=
  (Machine.called outer count strokes).run strokes.tail

theorem ownsElem_constructed (a : Activation) (n : Nat) (outer : List Activation) :
    OwnsElem (a.constructed n :: outer) :=
  ⟨rfl, a.vars_set_self "elem" _⟩

/-- A construction in a function with an `elem` counts one object more and leaves the
functions further out alone. -/
theorem Machine.construct_eq {m : Machine} {a : Activation} {outer : List Activation}
    (hFrames : m.frames = a :: outer) (hElem : (a.vars "elem").isSome = true) :
    m.construct "elem" = ⟨a.constructed m.count :: outer, m.count + 1, m.skipping⟩ := by
  unfold construct
  rw [hFrames, Script.write, if_pos hElem]
  rfl

/-- A function that owns its object keeps this object. -/
theorem OwnsElem.exists_keep {m : Machine} (h : OwnsElem m.frames) :
    ∃ n, (m.frames.head?.bind fun a => a.vars "elem") = some (.object n) ∧
      ∀ id, m.keep id = m.write id (.object n) := by
  match hFrames : m.frames with
  | [] =>
    rw [hFrames] at h
    exact absurd h id
  | a :: outer =>
    rw [hFrames] at h
    obtain ⟨hMade, hElem⟩ := h
    obtain ⟨n, hSome⟩ := Option.isSome_iff_exists.mp hMade
    rw [hSome] at hElem
    refine ⟨n, hElem, fun id => ?_⟩
    rw [Machine.keep, hFrames, lookup, List.findSome?_cons, hElem]
    rfl

-- ---------------------------------------------------------------------------
-- Declarations
-- ---------------------------------------------------------------------------

/-- Strokes that close all functions that they open. -/
def Closed (strokes : List Stroke) : Prop :=
  ∀ level, Stroke.counter? level strokes = some level

/-- Strokes that close all they open can be put behind each other. -/
theorem Closed.append {front back : List Stroke} (hFront : Closed front) (hBack : Closed back) :
    Closed (front ++ back) := by
  intro level
  have hFirst := hFront level
  rw [Stroke.counter?] at hFirst ⊢
  rw [List.foldlM_append, hFirst]
  exact hBack level

theorem Closed.flatMap {α : Type} {items : List α} {strokes : α → List Stroke}
    (h : ∀ item ∈ items, Closed (strokes item)) : Closed (items.flatMap strokes) := by
  induction items with
  | nil => exact fun _ => rfl
  | cons item items ih =>
    obtain ⟨hHere, hMore⟩ := List.forall_mem_cons.mp h
    rw [List.flatMap_cons]
    exact hHere.append (ih hMore)

theorem closed_of_plain {strokes : List Stroke} (h : ∀ stroke ∈ strokes, stroke.isPlain) :
    Closed strokes :=
  fun level => (Stroke.draws_of_plain level h).counter

theorem closed_map_line (texts : List String) : Closed (texts.map .line) :=
  fun level => (Stroke.draws_map_line level texts).counter

/-- What strokes declare is found part by part, each from the level at which the part
before it ends. -/
theorem hoisted_append {level after : Nat} {front : List Stroke}
    (h : Stroke.counter? level front = some after) (back : List Stroke) :
    hoisted level (front ++ back) = hoisted level front ++ hoisted after back := by
  induction front generalizing level with
  | nil =>
    obtain rfl : level = after := Option.some.inj h
    rfl
  | cons stroke front ih =>
    rw [Stroke.counter?, List.foldlM_cons] at h
    obtain ⟨next, hNext, hMore⟩ := Option.bind_eq_some_iff.mp h
    simp only [List.cons_append, hoisted, hNext]
    rw [ih hMore, List.append_assoc]

/-- Strokes inside a function declare nothing around it. -/
theorem hoisted_succ {level after : Nat} {strokes : List Stroke}
    (h : Stroke.counter? level strokes = some after) : hoisted (level + 1) strokes = [] := by
  induction strokes generalizing level with
  | nil => rfl
  | cons stroke strokes ih =>
    rw [Stroke.counter?, List.foldlM_cons] at h
    obtain ⟨next, hNext, hMore⟩ := Option.bind_eq_some_iff.mp h
    -- one level further in, every stroke does the same and none comes to the level of the
    -- function
    have hDeeper : stroke.step? (level + 1) = some (next + 1) := by
      cases stroke with
      | closing text =>
        simp only [Stroke.step?] at hNext ⊢
        split at hNext
        · exact absurd hNext (by simp)
        · rw [if_neg (Nat.succ_ne_zero level), ← Option.some.inj hNext]
          exact congrArg some (by omega)
      | opening frame text =>
        obtain rfl : level + 1 = next := Option.some.inj hNext
        rfl
      | _ =>
        obtain rfl : level = next := Option.some.inj hNext
        rfl
    simp only [hoisted, hDeeper, Nat.succ_ne_zero, if_false, List.nil_append]
    exact ih hMore

/-- Without blocks, all names belong to the function itself. -/
theorem hoisted_of_plain {strokes : List Stroke} (h : ∀ stroke ∈ strokes, stroke.isPlain) :
    hoisted 0 strokes = strokes.flatMap Stroke.names := by
  induction strokes with
  | nil => rfl
  | cons stroke strokes ih =>
    obtain ⟨hHere, hMore⟩ := List.forall_mem_cons.mp h
    have hStep : stroke.step? 0 = some 0 := by
      cases stroke with
      | opening | closing => exact absurd hHere (by simp [Stroke.isPlain])
      | _ => rfl
    simp only [hoisted, hStep, if_true, List.flatMap_cons]
    rw [ih hMore]

theorem hoisted_map_line {texts : List String}
    (h : ∀ text ∈ texts, initialization? text.toList = none) :
    hoisted 0 (texts.map .line) = [] := by
  rw [hoisted_of_plain (List.forall_mem_map.mpr fun _ _ => rfl), Stroke.names_map_line h]

/-- A whole function declares what its opening does. -/
theorem hoisted_function (frame : Frame) (head tail : String) {body : List Stroke}
    (h : Closed body) :
    hoisted 0 (.opening frame head :: body ++ [.closing tail]) =
      (Stroke.opening frame head).names := by
  have hBody : hoisted 1 (body ++ [.closing tail]) = [] := by
    rw [hoisted_append (h 1), hoisted_succ (h 0)]
    rfl
  simp only [List.cons_append, hoisted, Stroke.step?, Stroke.levelAfter, if_true]
  rw [hBody, List.append_nil]

/-- Behind the end of a function nothing is declared in it. -/
theorem hoisted_closing {strokes : List Stroke} (h : Closed strokes) (tail : String)
    (rest : List Stroke) : hoisted 0 (strokes ++ .closing tail :: rest) = hoisted 0 strokes := by
  rw [hoisted_append (h 0)]
  exact List.append_nil _

-- ---------------------------------------------------------------------------
-- Assignments
-- ---------------------------------------------------------------------------

section Assignments

variable {frames frames' : List Activation} {name x : String}

/-- A name is found if one of the functions has it. -/
theorem isSome_lookup_iff :
    (lookup frames name).isSome = true ↔ ∃ a ∈ frames, (a.vars name).isSome = true := by
  rw [lookup, List.isSome_findSome?, List.any_eq_true]

theorem lookup_cons_of_none {a : Activation} (h : a.vars name = none) :
    lookup (a :: frames) name = lookup frames name := by
  simp [lookup, h]

/-- A name that is found further out is found from a new function, too. -/
theorem isSome_lookup_cons (a : Activation) (h : (lookup frames name).isSome = true) :
    (lookup (a :: frames) name).isSome = true := by
  obtain ⟨b, hMem, hBound⟩ := isSome_lookup_iff.mp h
  exact isSome_lookup_iff.mpr ⟨b, List.mem_cons_of_mem a hMem, hBound⟩

/-- A construction does not change which names are found. -/
theorem isSome_lookup_constructed {a : Activation} (h : (a.vars "elem").isSome = true) (n : Nat) :
    (lookup (a.constructed n :: frames) name).isSome = true ↔
      (lookup (a :: frames) name).isSome = true := by
  rw [isSome_lookup_iff, isSome_lookup_iff, List.exists_mem_cons_iff, List.exists_mem_cons_iff,
    Activation.isSome_vars_constructed h]

/-- A name that is found has the value that was written to it. -/
theorem lookup_write_self (h : (lookup frames name).isSome = true) (value : Value) :
    lookup (write name value frames) name = some value := by
  induction frames with
  | nil => exact absurd h (by simp [lookup])
  | cons a outer ih =>
    unfold write
    split
    · simp [lookup]
    · next hNone =>
      have hHere : a.vars name = none := by simpa using hNone
      rw [lookup_cons_of_none hHere] at h ⊢
      exact ih h

/-- Writing one name leaves the others as they are. -/
theorem lookup_write_of_ne (h : x ≠ name) (value : Value) :
    lookup (write name value frames) x = lookup frames x := by
  induction frames with
  | nil => rfl
  | cons a outer ih =>
    simp only [lookup] at ih ⊢
    unfold write
    split
    · rw [List.findSome?_cons, List.findSome?_cons, a.vars_set_of_ne h]
    · rw [List.findSome?_cons, List.findSome?_cons, ih]

/-- What an assignment leaves as it is, apart from one to `elem`: the object that was
constructed, `elem`, and which variables there are. -/
structure Fixed where
  made : Option Nat
  elem : Option Value
  binds : String → Bool

def Activation.fixed (a : Activation) : Fixed where
  made := a.made
  elem := a.vars "elem"
  binds := fun name => (a.vars name).isSome

/-- Setting a name that is bound keeps the fixed part of a function, unless it moves
`elem`. -/
theorem fixed_set {a : Activation} (hBound : (a.vars name).isSome = true) {value : Value}
    (h : name = "elem" → a.vars "elem" = some value) : (a.set name value).fixed = a.fixed := by
  have hElem : (a.set name value).vars "elem" = a.vars "elem" := by
    by_cases hName : name = "elem"
    · subst hName
      rw [a.vars_set_self, h rfl]
    · exact a.vars_set_of_ne (Ne.symm hName) value
  have hBinds : (fun x => ((a.set name value).vars x).isSome) = fun x => (a.vars x).isSome := by
    funext x
    by_cases hName : x = name
    · rw [hName, a.vars_set_self, hBound]
      rfl
    · rw [a.vars_set_of_ne hName]
  unfold Activation.fixed
  rw [hElem, hBinds]
  rfl

/-- A write keeps the fixed parts of all functions, unless it moves the innermost `elem`.
-/
theorem map_fixed_write {value : Value}
    (h : name = "elem" → (frames.head?.bind fun a => a.vars "elem") = some value) :
    (write name value frames).map Activation.fixed = frames.map Activation.fixed := by
  induction frames with
  | nil => rfl
  | cons a outer ih =>
    unfold write
    split
    · next hBound => rw [List.map_cons, List.map_cons, fixed_set hBound h]
    · next hNone =>
      -- the write goes further out, but the innermost function has an `elem`
      have hOther : name ≠ "elem" := by
        rintro rfl
        exact hNone (by simp [show a.vars "elem" = some value from h rfl])
      rw [List.map_cons, List.map_cons, ih fun hName => absurd hName hOther]

/-- A write that finds its name among the innermost functions leaves those further out
alone. -/
theorem drop_write {k : Nat} (h : ∃ a ∈ frames.take k, (a.vars name).isSome = true)
    (value : Value) : (write name value frames).drop k = frames.drop k := by
  induction frames generalizing k with
  | nil => rfl
  | cons a outer ih =>
    cases k with
    | zero => exact absurd h (by simp)
    | succ k =>
      unfold write
      split
      · rfl
      · next hNone =>
        obtain ⟨b, hMem, hBound⟩ := h
        rw [List.take_succ_cons] at hMem
        rcases List.mem_cons.mp hMem with rfl | hLater
        · exact absurd hBound hNone
        · exact ih ⟨b, hLater, hBound⟩

/-- Assignments leave the variables where they are. -/
theorem exists_bound_iff
    (h : frames'.map Activation.fixed = frames.map Activation.fixed) (k : Nat) :
    (∃ a ∈ frames'.take k, (a.vars name).isSome = true) ↔
      ∃ a ∈ frames.take k, (a.vars name).isSome = true := by
  have hFixed : ∀ fs : List Activation, (∃ a ∈ fs.take k, (a.vars name).isSome = true) ↔
      ∃ fixed ∈ (fs.map Activation.fixed).take k, fixed.binds name = true := by
    intro fs
    simp only [← List.map_take, List.mem_map, exists_exists_and_eq_and]
    rfl
  rw [hFixed, hFixed, h]

/-- Which names are found depends on the fixed parts only. -/
theorem isSome_lookup_congr
    (h : frames'.map Activation.fixed = frames.map Activation.fixed) :
    (lookup frames' name).isSome = true ↔ (lookup frames name).isSome = true := by
  have hLength : frames'.length = frames.length := by simpa using congrArg List.length h
  rw [isSome_lookup_iff, isSome_lookup_iff, ← List.take_length (l := frames'), hLength,
    exists_bound_iff h, List.take_length]

/-- Whether `elem` is the object of the innermost function depends on the fixed parts only.
-/
theorem OwnsElem.of_fixed (h : frames'.map Activation.fixed = frames.map Activation.fixed)
    (hOwns : OwnsElem frames) : OwnsElem frames' := by
  match frames, frames' with
  | [], _ => exact absurd hOwns id
  | _ :: _, [] => exact absurd h (by simp)
  | a :: outer, b :: outer' =>
    obtain ⟨hHead, -⟩ := List.cons.inj h
    have hMade : b.made = a.made := congrArg Fixed.made hHead
    have hElem : b.vars "elem" = a.vars "elem" := congrArg Fixed.elem hHead
    show b.made.isSome ∧ b.vars "elem" = b.made.map .object
    rw [hMade, hElem]
    exact hOwns

/-- What a run may have changed, with a look at one name `x`: where `ids` were assigned,
`x` denotes an object if it is one of them, and what it did before if it is not. Functions
further out are as they were, from the first on around those that have all these ids as
their variables. -/
structure Settles (x : String) (ids : List String) (frames frames' : List Activation) : Prop where
  fixed : frames'.map Activation.fixed = frames.map Activation.fixed
  assigned : x ∈ ids → (lookup frames x).isSome = true → ∃ n, lookup frames' x = some (.object n)
  other : x ∉ ids → lookup frames' x = lookup frames x
  outer : ∀ k, (∀ id ∈ ids, ∃ a ∈ frames.take (k + 1), (a.vars id).isSome = true) →
    frames'.drop (k + 1) = frames.drop (k + 1)

namespace Settles

variable {frames'' : List Activation} {ids more : List String}

theorem refl (x : String) (frames : List Activation) : Settles x [] frames frames :=
  ⟨rfl, fun h => absurd h List.not_mem_nil, fun _ => rfl, fun _ _ => rfl⟩

/-- What two parts of a script settle one behind the other. -/
theorem append (hFirst : Settles x ids frames frames') (hSecond : Settles x more frames' frames'') :
    Settles x (ids ++ more) frames frames'' where
  fixed := hSecond.fixed.trans hFirst.fixed
  assigned := by
    intro hMem hBound
    by_cases hLater : x ∈ more
    · exact hSecond.assigned hLater ((isSome_lookup_congr hFirst.fixed).mpr hBound)
    · have hEarlier := (List.mem_append.mp hMem).resolve_right hLater
      -- the second part does not assign `x`, so what the first left there stays
      rw [hSecond.other hLater]
      exact hFirst.assigned hEarlier hBound
  other := by
    intro hMem
    obtain ⟨hEarlier, hLater⟩ := not_or.mp (mt List.mem_append.mpr hMem)
    rw [hSecond.other hLater, hFirst.other hEarlier]
  outer := by
    intro k hBound
    obtain ⟨hEarlier, hLater⟩ := List.forall_mem_append.mp hBound
    rw [hSecond.outer k fun id hId => (exists_bound_iff hFirst.fixed _).mpr (hLater id hId),
      hFirst.outer k hEarlier]

/-- An object is kept under an id. -/
theorem of_write (x : String) {id : String} {n : Nat}
    (h : id = "elem" → (frames.head?.bind fun a => a.vars "elem") = some (.object n)) :
    Settles x [id] frames (write id (.object n) frames) where
  fixed := map_fixed_write h
  assigned := by
    intro hMem hBound
    obtain rfl := List.mem_singleton.mp hMem
    exact ⟨n, lookup_write_self hBound _⟩
  other := fun hMem => lookup_write_of_ne (mt List.mem_singleton.mpr hMem) _
  outer := fun k hBound => drop_write (hBound id List.mem_cons_self) _

/-- A variable of the innermost function is set that is not looked at. -/
theorem of_write_head (hBound : ∃ a ∈ frames.take 1, (a.vars name).isSome = true)
    (hElem : name ≠ "elem") (hOther : x ≠ name) (value : Value) :
    Settles x [] frames (write name value frames) where
  fixed := map_fixed_write fun hName => absurd hName hElem
  assigned := fun h => absurd h List.not_mem_nil
  other := fun _ => lookup_write_of_ne hOther value
  outer := by
    intro k _
    obtain ⟨a, hMem, hSome⟩ := hBound
    have hFirst : frames.take 1 <+: frames.take (k + 1) := List.take_prefix_take_left (by omega)
    exact drop_write ⟨a, hFirst.subset hMem, hSome⟩ value

/-- The innermost function ends. -/
theorem tail {a : Activation} (h : Settles x ids (a :: frames) frames') (hNone : a.vars x = none) :
    Settles x ids frames frames'.tail := by
  match frames' with
  | [] => exact absurd h.fixed (by simp)
  | b :: outer =>
    obtain ⟨hHead, hFixed⟩ := List.cons.inj h.fixed
    have hAlso : b.vars x = none := by
      have hBinds : (b.vars x).isSome = (a.vars x).isSome := congrFun (congrArg Fixed.binds hHead) x
      simpa [hNone] using hBinds
    have hAssigned := h.assigned
    have hOther := h.other
    rw [lookup_cons_of_none hNone, lookup_cons_of_none hAlso] at hAssigned hOther
    refine ⟨hFixed, hAssigned, hOther, fun k hBound => h.outer (k + 1) fun id hId => ?_⟩
    obtain ⟨c, hMem, hSome⟩ := hBound id hId
    exact ⟨c, List.mem_cons_of_mem a hMem, hSome⟩

end Settles

end Assignments

-- ---------------------------------------------------------------------------
-- Runs over the strokes of a function
-- ---------------------------------------------------------------------------

/-- At a stroke nothing goes wrong: the object that it needs is the one that `elem`
denotes, and a strict run finds the variable that it assigns. -/
structure Sound (strict : Prop) (m : Machine) (stroke : Stroke) : Prop where
  elem : stroke.usesElem = true → OwnsElem m.frames
  assigned : strict → ∀ id, stroke = .assign id → (lookup m.frames id).isSome = true

/-- A run over strokes leads from one state to another, whatever stands behind them. -/
structure Passes (strict : Prop) (m : Machine) (strokes : List Stroke) (m' : Machine) : Prop where
  trace : ∃ entries, (∀ entry ∈ entries, Sound strict entry.1 entry.2) ∧
    ∀ rest, m.trace (strokes ++ rest) = entries ++ m'.trace rest
  run : ∀ rest, m.run (strokes ++ rest) = m'.run rest

namespace Passes

variable {strict : Prop} {m m' m'' : Machine} {front back strokes body : List Stroke}
  {stroke : Stroke} {frame : Frame} {head : String}

theorem refl (strict : Prop) (m : Machine) : Passes strict m [] m :=
  ⟨⟨[], List.forall_mem_nil _, fun _ => rfl⟩, fun _ => rfl⟩

/-- Two runs behind each other are one run. -/
theorem append (hFirst : Passes strict m front m') (hSecond : Passes strict m' back m'') :
    Passes strict m (front ++ back) m'' := by
  obtain ⟨⟨first, hFirstSound, hFirstTrace⟩, hFirstRun⟩ := hFirst
  obtain ⟨⟨second, hSecondSound, hSecondTrace⟩, hSecondRun⟩ := hSecond
  refine ⟨⟨first ++ second, List.forall_mem_append.mpr ⟨hFirstSound, hSecondSound⟩, fun rest => ?_⟩,
    fun rest => ?_⟩
  · rw [List.append_assoc, hFirstTrace, hSecondTrace, List.append_assoc]
  · rw [List.append_assoc, hFirstRun, hSecondRun]

/-- One stroke that does not depend on those behind it. -/
theorem one (hSkip : m.skipping = 0) (hSound : Sound strict m stroke)
    (hStep : ∀ rest, m.perform rest stroke = m') : Passes strict m [stroke] m' := by
  have hNext : ∀ rest, m.step stroke rest = m' := fun rest => (if_pos hSkip).trans (hStep rest)
  refine ⟨⟨[(m, stroke)], List.forall_mem_singleton.mpr hSound, fun rest => ?_⟩, fun rest => ?_⟩
  · rw [List.singleton_append, Machine.trace, if_pos hSkip, hNext]
    rfl
  · rw [List.singleton_append, Machine.run, hNext]

/-- Strokes without an effect. -/
theorem still (hSkip : m.skipping = 0) (hSound : ∀ stroke ∈ strokes, Sound strict m stroke)
    (hStep : ∀ stroke ∈ strokes, ∀ rest, m.perform rest stroke = m) :
    Passes strict m strokes m := by
  induction strokes with
  | nil => exact .refl strict m
  | cons stroke strokes ih =>
    obtain ⟨hHere, hMore⟩ := List.forall_mem_cons.mp hSound
    obtain ⟨hStepHere, hStepMore⟩ := List.forall_mem_cons.mp hStep
    exact (one hSkip hHere hStepHere).append (ih hMore hStepMore)

/-- The declaration of variables does nothing: they are there from the start. -/
theorem declaration (hSkip : m.skipping = 0) (ids : List String) :
    Passes strict m (declaration ids) m := by
  cases ids with
  | nil => exact .refl strict m
  | cons id ids =>
    exact .one hSkip ⟨fun h => absurd h Bool.false_ne_true, fun _ _ h => absurd h (by simp)⟩
      fun _ => rfl

/-- Lines that set no variable. -/
theorem lines (hSkip : m.skipping = 0) {texts : List String}
    (h : ∀ text ∈ texts, initialization? text.toList = none)
    (hElem : ∀ text ∈ texts, (Stroke.line text).usesElem = true → OwnsElem m.frames) :
    Passes strict m (texts.map .line) m := by
  refine .still hSkip ?_ ?_
  · rw [List.forall_mem_map]
    exact fun text hText => ⟨hElem text hText, fun _ _ hAssign => absurd hAssign (by simp)⟩
  · rw [List.forall_mem_map]
    intro text hText rest
    rw [Machine.perform, h text hText]

theorem trace_lines (hSkip : m.skipping = 0) {texts : List String}
    (h : ∀ text ∈ texts, initialization? text.toList = none) (rest : List Stroke) :
    m.trace (texts.map .line ++ rest) =
      texts.map (fun text => (m, .line text)) ++ m.trace rest := by
  induction texts with
  | nil => rfl
  | cons text texts ih =>
    obtain ⟨hHere, hMore⟩ := List.forall_mem_cons.mp h
    rw [List.map_cons, List.cons_append, Machine.trace, if_pos hSkip, Machine.step, if_pos hSkip,
      Machine.perform, hHere]
    exact congrArg _ (ih hMore)

/-- What is only defined is passed over. -/
theorem skip {level after : Nat} (hSkip : m.skipping = level + 1)
    (h : Stroke.counter? level strokes = some after) :
    Passes strict m strokes { m with skipping := after + 1 } := by
  induction strokes generalizing m level with
  | nil =>
    obtain rfl : level = after := Option.some.inj h
    rw [← hSkip]
    exact .refl strict m
  | cons stroke strokes ih =>
    rw [Stroke.counter?, List.foldlM_cons] at h
    obtain ⟨next, hNext, hMore⟩ := Option.bind_eq_some_iff.mp h
    -- the level in the skipped function is one less than the machine's own count, so a closing
    -- brace must not end the skipping here
    have hLevel : stroke.levelAfter (level + 1) = next + 1 := by
      have hAfter := Stroke.levelAfter_of_step? hNext
      cases stroke with
      | closing text =>
        have hPos : level ≠ 0 := by
          rintro rfl
          exact absurd hNext (by simp [Stroke.step?])
        simp only [Stroke.levelAfter] at hAfter ⊢
        omega
      | _ => exact congrArg (· + 1) hAfter
    have hActive : m.skipping ≠ 0 := by omega
    have hStep : ∀ rest, m.step stroke rest = { m with skipping := next + 1 } := by
      intro rest
      rw [Machine.step, if_neg hActive, hSkip, hLevel]
    obtain ⟨⟨entries, hSound, hTrace⟩, hRun⟩ := ih (m := { m with skipping := next + 1 }) rfl hMore
    refine ⟨⟨entries, hSound, fun rest => ?_⟩, fun rest => ?_⟩
    · rw [List.cons_append, Machine.trace, if_neg hActive, hStep, hTrace]
    · rw [List.cons_append, Machine.run, hStep, hRun]

/-- A function starts the same whether its end is in sight or not. -/
theorem start_closing (h : Closed body) (tail : String) (rest : List Stroke) :
    Activation.start head (body ++ .closing tail :: rest) = .start head body := by
  unfold Activation.start
  rw [hoisted_closing h]

/-- A function that runs where it stands. -/
theorem function (hSkip : m.skipping = 0) (hRuns : initialization? head.toList = none)
    (hSound : Sound strict m (.opening frame head)) (hClosed : Closed body)
    (hBody : Passes strict { m with frames := .start head body :: m.frames } body m')
    (hDone : m'.skipping = 0) (tail : String) :
    Passes strict m (.opening frame head :: body ++ [.closing tail])
      { m' with frames := m'.frames.tail } := by
  have hClosing : Passes strict m' [.closing tail] { m' with frames := m'.frames.tail } :=
    .one hDone ⟨fun h => absurd h Bool.false_ne_true, fun _ _ h => absurd h (by simp)⟩ fun _ => rfl
  obtain ⟨⟨entries, hInside, hTrace⟩, hRun⟩ := hBody.append hClosing
  -- the variables are those of the whole body, which ends before the closing
  have hEnter : ∀ rest, m.step (.opening frame head) ((body ++ [.closing tail]) ++ rest) =
      { m with frames := .start head body :: m.frames } := by
    intro rest
    rw [Machine.step, if_pos hSkip, Machine.perform, hRuns, List.append_assoc]
    show Machine.enter m head (body ++ .closing tail :: rest) = _
    rw [Machine.enter, start_closing hClosed]
  refine ⟨⟨(m, .opening frame head) :: entries, List.forall_mem_cons.mpr ⟨hSound, hInside⟩,
    fun rest => ?_⟩, fun rest => ?_⟩
  · rw [List.cons_append, List.cons_append, Machine.trace, if_pos hSkip, hEnter, hTrace]
    rfl
  · rw [List.cons_append, List.cons_append, Machine.run, hEnter, hRun]

/-- A function that is only defined. -/
theorem definition {name : String} {value : List Char} (hSkip : m.skipping = 0)
    (hName : initialization? head.toList = some (name, value))
    (hSound : Sound strict m (.opening frame head)) (hClosed : Closed body) (tail : String) :
    Passes strict m (.opening frame head :: body ++ [.closing tail]) (m.write name .function) := by
  have hOpening : Passes strict m [.opening frame head]
      { m.write name .function with skipping := 1 } := by
    refine .one hSkip hSound fun rest => ?_
    rw [Machine.perform, hName]
  -- the body is not run but passed over
  have hBody : Passes strict { m.write name .function with skipping := 1 } body
      { m.write name .function with skipping := 1 } := .skip rfl (hClosed 0)
  have hClosing : Passes strict { m.write name .function with skipping := 1 } [.closing tail]
      (m.write name .function) := by
    have hStep : ∀ rest, Machine.step { m.write name .function with skipping := 1 }
        (Stroke.closing tail) rest = m.write name .function := by
      intro rest
      rw [Machine.step, if_neg Nat.one_ne_zero]
      simp [Machine.write, Stroke.levelAfter, hSkip]
    refine ⟨⟨[], List.forall_mem_nil _, fun rest => ?_⟩, fun rest => ?_⟩
    · rw [List.singleton_append, Machine.trace, if_neg Nat.one_ne_zero, hStep]
      rfl
    · rw [List.singleton_append, Machine.run, hStep]
  exact (hOpening.append hBody).append hClosing

/-- A call enters the function with its variables unset and nothing skipped. -/
theorem called_eq (hClosed : Closed body) (outer : List Activation) (count : Nat) (frame : Frame)
    (head tail : String) :
    Machine.called outer count (.opening frame head :: body ++ [.closing tail]) =
      ⟨.start head body :: outer, count, 0⟩ := by
  have hStart : Activation.start head (body ++ [.closing tail]) = .start head body :=
    start_closing hClosed tail []
  rw [Machine.called, List.cons_append, List.head?_cons, List.tail_cons]
  simp only [Option.elim_some, Stroke.text, Machine.enter, hStart]

/-- The call of a function is the run of its body, and its last line ends it. -/
theorem call {outer : List Activation} {count : Nat} (hClosed : Closed body)
    (h : Passes strict ⟨.start head body :: outer, count, 0⟩ body m') (hDone : m'.skipping = 0)
    (frame : Frame) (tail : String) :
    (∀ entry ∈ callTrace outer count (.opening frame head :: body ++ [.closing tail]),
      Sound strict entry.1 entry.2) ∧
    (callResult outer count (.opening frame head :: body ++ [.closing tail])).frames =
      m'.frames.tail := by
  obtain ⟨⟨entries, hSound, hTrace⟩, hRun⟩ := h
  have hLast : Sound strict m' (.closing tail) :=
    ⟨fun h => absurd h Bool.false_ne_true, fun _ _ h => absurd h (by simp)⟩
  rw [callTrace, callResult, called_eq hClosed]
  show (∀ entry ∈ Machine.trace _ (body ++ [.closing tail]), Sound strict entry.1 entry.2) ∧
    (Machine.run _ (body ++ [.closing tail])).frames = _
  rw [hTrace, hRun, Machine.trace, if_pos hDone, Machine.run, Machine.step, if_pos hDone]
  refine ⟨List.forall_mem_append.mpr ⟨hSound, List.forall_mem_singleton.mpr hLast⟩, rfl⟩

end Passes

/-- A run over strokes that assigns `ids` and leads back to where it can go on. -/
def Arrives (x : String) (strict : Prop) (ids : List String) (m : Machine)
    (strokes : List Stroke) : Prop :=
  ∃ m', Passes strict m strokes m' ∧ m'.skipping = 0 ∧ Settles x ids m.frames m'.frames

namespace Arrives

variable {x : String} {strict : Prop} {m : Machine} {ids more : List String}
  {front back : List Stroke}

/-- A second part arrives from wherever the first one leads: only the fixed parts are known
there. -/
theorem append (hFirst : Arrives x strict ids m front)
    (hSecond : ∀ m', m'.skipping = 0 →
      m'.frames.map Activation.fixed = m.frames.map Activation.fixed →
      Arrives x strict more m' back) : Arrives x strict (ids ++ more) m (front ++ back) := by
  obtain ⟨m', hFront, hSkip, hSettles⟩ := hFirst
  obtain ⟨m'', hBack, hDone, hMore⟩ := hSecond m' hSkip hSettles.fixed
  exact ⟨m'', hFront.append hBack, hDone, hSettles.append hMore⟩

theorem lines (hSkip : m.skipping = 0) {texts : List String}
    (h : ∀ text ∈ texts, initialization? text.toList = none)
    (hElem : ∀ text ∈ texts, (Stroke.line text).usesElem = true → OwnsElem m.frames) :
    Arrives x strict [] m (texts.map .line) :=
  ⟨m, .lines hSkip h hElem, hSkip, .refl x m.frames⟩

end Arrives

end BindingMarkup.Script
