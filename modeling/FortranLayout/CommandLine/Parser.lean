import FortranLayout.CommandLine.Arguments
import FortranLayout.Text.Decimal

/-!
# Reading a command line

The words of a command line are read from left to right. A word that starts with a dash names
options; an option that takes a value takes the rest of the word or, if there is none, the next word
that names no option; every other word is an input. After a word of two dashes all words are inputs.

The values of an option, and those of a run of inputs, are checked when the next option is read, or
at the end: a command line with two faults is refused for an unknown option rather than for the
value before it.
-/

namespace FortranLayout

/-- Why a command line is refused. -/
inductive UsageFault where
  /-- An option given twice, or two that exclude each other. -/
  | conflict
  /-- A value that is missing, empty or none of those allowed. -/
  | invalidValue
  /-- An option that does not exist. -/
  | unknownOption
  /-- A value that is not a number that fits a word. -/
  | notANumber
  /-- A value for an option that takes none. -/
  | surplusValue
deriving DecidableEq, Repr

/-- The fault in words. -/
def UsageFault.message : UsageFault → String
  | conflict => "an option is given twice, or two options exclude each other"
  | invalidValue => "the value of an option is missing or not allowed"
  | unknownOption => "there is no such option"
  | notANumber => "the value of an option is not a number"
  | surplusValue => "an option that takes no value is given one"

/-- Why a command line starts no run. -/
inductive Halt where
  | refused (fault : UsageFault)
  | help
  | version
deriving DecidableEq, Repr

/-! ## Words -/

/-- A word by the dashes that it starts with. -/
inductive Word where
  /-- Two dashes alone. -/
  | separator
  /-- The long name of an option, and the value attached to it. -/
  | long (name : List Char) (value : Option (List Char))
  /-- Short names of options, and perhaps a value. -/
  | short (letters : List Char)
  /-- A value or an input. -/
  | plain
deriving DecidableEq, Repr

/-- What stands before the first `=`, and after it. -/
def cutAtEquals (s : List Char) : List Char × Option (List Char) :=
  match s.dropWhile (· ≠ '=') with
  | [] => (s, none)
  | _ :: value => (s.takeWhile (· ≠ '='), some value)

/-- The kind of a word. A dash alone is an input. -/
def Word.ofText : List Char → Word
  | ['-', '-'] => .separator
  | '-' :: '-' :: s => .long (cutAtEquals s).1 (cutAtEquals s).2
  | '-' :: c :: s => .short (c :: s)
  | _ => .plain

/-- What an option asks for. -/
inductive Demand where
  | switch (s : Switch)
  | slot (s : Slot)
  | help
  | version
deriving DecidableEq, Repr

namespace Demand

/-- The option with the given long name. -/
def ofLong? (name : String) : Option Demand :=
  match Switch.all.find? (·.long == name), Slot.options.find? (·.long? == some name) with
  | some s, _ => some (.switch s)
  | none, some s => some (.slot s)
  | none, none =>
    if name == "help" then some .help
    else if name == "version" then some .version
    else none

/-- The option with the given letter. -/
def ofShort? (letter : Char) : Option Demand :=
  match Switch.all.find? (·.short? == some letter),
      Slot.options.find? (·.short? == some letter) with
  | some s, _ => some (.switch s)
  | none, some s => some (.slot s)
  | none, none =>
    if letter == 'h' then some .help
    else if letter == 'V' then some .version
    else none

end Demand

/-! ## Values -/

namespace Arguments

/-- The only value of an option that may be given once. -/
def once {α : Type} (present : Option α) (value : Except Halt α) : Except Halt (Option α) :=
  if present.isSome then .error (.refused .conflict) else value.map some

/-- A number. -/
def number (value : String) : Except Halt Nat :=
  match Text.word? value.toList with
  | some n => .ok n
  | none => .error (.refused .notANumber)

/-- A path, which is not empty. -/
def path (value : String) : Except Halt String :=
  if value = "" then .error (.refused .invalidValue) else .ok value

/-- What to write. -/
def form (value : String) : Except Halt Emit :=
  if value = "fortran" then .ok .fortran
  else if value = "json" then .ok .json
  else .error (.refused .invalidValue)

/-- Puts a value into a slot. -/
def put (a : Arguments) (slot : Slot) (value : String) : Except Halt Arguments :=
  match slot with
  | .inputs => do return { a with inputs := a.inputs ++ [← path value] }
  | .config => do return { a with config := ← once a.config (path value) }
  | .emit => do return { a with emit := ← once a.emit (form value) }
  | .exclude => .ok { a with exclude := a.exclude ++ [value] }
  | .extension => .ok { a with extensions := a.extensions ++ [value] }
  | .jobs => do return { a with jobs := ← once a.jobs (number value) }
  | .indentBranch => do return { a with indentBranch := ← once a.indentBranch (number value) }
  | .indentUnit => do return { a with indentUnit := ← once a.indentUnit (number value) }

/-- Puts values into a slot, at least one. -/
def putAll (a : Arguments) (slot : Slot) (values : List String) : Except Halt Arguments :=
  if values.isEmpty then .error (.refused .invalidValue) else values.foldlM (put · slot) a

/-- Turns a switch on. -/
def turnOn (a : Arguments) (s : Switch) : Except Halt Arguments :=
  if a.has s then .error (.refused .conflict) else .ok { a with switches := a.switches ++ [s] }

/-- Refuses arguments that exclude each other. -/
def check (a : Arguments) : Except Halt Arguments :=
  if a.has .upperCase && a.has .lowerCase then .error (.refused .conflict) else .ok a

end Arguments

/-! ## Reading -/

/-- What has been read: the arguments, and the values that are not in them yet. -/
structure Intake where
  arguments : Arguments := {}
  /-- The slot read last, and the values for it that have not been checked. -/
  pending : Option (Slot × List String) := none
deriving DecidableEq, Repr

namespace Intake

/-- Checks the pending values and puts them in. -/
def settle (t : Intake) : Except Halt Arguments :=
  match t.pending with
  | none => .ok t.arguments
  | some (slot, values) => t.arguments.putAll slot values

/-- Carries out an option. -/
def obey (t : Intake) (d : Demand) : Except Halt Intake := do
  let a ← t.settle
  match d with
  | .switch s => return { arguments := ← a.turnOn s }
  | .slot s => return { arguments := a, pending := some (s, []) }
  | .help => throw .help
  | .version => throw .version

/-- Puts a value that is attached to its option into the slot. -/
def attach (t : Intake) (slot : Slot) (value : List Char) : Except Halt Intake := do
  return { arguments := ← (← t.settle).put slot (String.ofList value) }

/-- Reads a word that holds a long name. -/
def long (t : Intake) (name : List Char) (value : Option (List Char)) : Except Halt Intake :=
  match Demand.ofLong? (String.ofList name), value with
  | none, _ => .error (.refused .unknownOption)
  | some d, none => t.obey d
  | some (.slot s), some v => t.attach s v
  | some _, some _ => .error (.refused .surplusValue)

/-- Reads a word that holds short names. What follows the letter of an option with a value is its
value, with or without a `=` before it. -/
def short (t : Intake) : List Char → Except Halt Intake
  | [] => .ok t
  | letter :: rest =>
    match Demand.ofShort? letter with
    | none => .error (.refused .unknownOption)
    | some (.slot s) =>
      match rest with
      | [] => t.obey (.slot s)
      | '=' :: value => t.attach s value
      | value => t.attach s value
    | some d => do (← t.obey d).short rest

/-- Reads an input. Inputs in a row are pending together. -/
def input (t : Intake) (value : String) : Except Halt Intake :=
  match t.pending with
  | some (.inputs, values) => .ok { t with pending := some (.inputs, values ++ [value]) }
  | _ => do return { arguments := ← t.settle, pending := some (.inputs, [value]) }

/-- Reads a word that names no option: the value of an option that waits for one, or an input. -/
def plain (t : Intake) (value : String) : Except Halt Intake :=
  match t.pending with
  | some (slot, []) => .ok { t with pending := some (slot, [value]) }
  | _ => t.input value

/-- Reads the words of a command line. -/
def read (t : Intake) : List String → Except Halt Intake
  | [] => .ok t
  | w :: rest =>
    match Word.ofText w.toList with
    | .separator => rest.foldlM input t
    | .long name value => do (← t.long name value).read rest
    | .short letters => do (← t.short letters).read rest
    | .plain => do (← t.plain w).read rest

end Intake

/-- The arguments of a command line, given by its words. -/
def Arguments.parse (words : List String) : Except Halt Arguments := do
  let t ← ({} : Intake).read words
  (← t.settle).check

end FortranLayout
