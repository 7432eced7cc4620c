import FortranLayout.Json.Token

/-!
# Reading JSON

A text is read as a single value. Objects keep all their fields, in order, so that a field given
twice can be told.
-/

namespace FortranLayout

namespace Json

/-- The fields, if all their keys are Unicode text. -/
def readableFields? : List (Option String × Data) → Option (List (String × Data))
  | [] => some []
  | (some key, d) :: fields => (readableFields? fields).map ((key, d) :: ·)
  | (none, _) :: _ => none

/-- The object with the given fields. -/
def tableOf (fields : List (Option String × Data)) : Data :=
  match readableFields? fields with
  | some fields => .table fields
  | none => .unreadable

mutual

/-- Reads a value: the value and the tokens after it. -/
def parseValue : Nat → List Token → Option (Data × List Token)
  | 0, _ => none
  | _ + 1, [] => none
  | fuel + 1, token :: ts =>
    match token, ts with
    | .scalar d, _ => some (d, ts)
    | .string (some s), _ => some (.string s, ts)
    | .string none, _ => some (.unreadable, ts)
    | .openArray, .closeArray :: rest => some (.array [], rest)
    | .openArray, _ => (parseItems fuel ts).map fun (items, rest) => (.array items, rest)
    | .openObject, .closeObject :: rest => some (.table [], rest)
    | .openObject, _ =>
      (parseFields fuel ts).map fun (fields, rest) =>
        (tableOf fields, rest)
    | _, _ => none

/-- Reads the items of an array and its end. -/
def parseItems : Nat → List Token → Option (List Data × List Token)
  | 0, _ => none
  | fuel + 1, ts =>
    match parseValue fuel ts with
    | some (d, .comma :: rest) =>
      (parseItems fuel rest).map fun (items, rest) => (d :: items, rest)
    | some (d, .closeArray :: rest) => some ([d], rest)
    | _ => none

/-- Reads the fields of an object and its end. A key is none if it is not Unicode text. -/
def parseFields : Nat → List Token → Option (List (Option String × Data) × List Token)
  | 0, _ => none
  | fuel + 1, ts =>
    match ts with
    | .string key :: .colon :: rest =>
      match parseValue fuel rest with
      | some (d, .comma :: rest) =>
        (parseFields fuel rest).map fun (fields, rest) => ((key, d) :: fields, rest)
      | some (d, .closeObject :: rest) => some ([(key, d)], rest)
      | _ => none
    | _ => none

end

/-- The value that a text denotes. Each token starts at most two nested readings. -/
def parse (s : List Char) : Option Data := do
  let tokens ← lex s
  match parseValue (2 * tokens.length + 1) tokens with
  | some (d, []) => some d
  | _ => none

end Json

end FortranLayout
