import BuildChain.Text.Blank
import BuildChain.Text.Fold
import BuildChain.Text.Split

/-!
# The syntax of one line

A line is an assignment `key=value`, an assignment that is commented out, a plain comment, or
something the format gives no meaning. `Route.ofKey` tells what a key addresses.
-/

namespace BuildChain

/-! ## Assignments -/

structure Assignment where
  key : String
  value : String
  active : Bool
deriving DecidableEq

namespace Assignment

/-- Reads `key=value`, cut at the first `=` and trimmed on both sides. The key of a line that is
commented out holds no white space, so that a remark with an `=` in it stays a remark. -/
def ofBody? (active : Bool) (body : List Char) : Option Assignment :=
  match Text.splitFirst '=' body with
  | none => none
  | some (left, right) =>
    let key := Text.trimChars left
    if key.isEmpty || (!active && key.any Text.isSpace) then none
    else some ⟨String.ofList key, String.ofList (Text.trimChars right), active⟩

/-- Reads a line; any number of `#` in front of the key comments it out. -/
def ofLine? (line : String) : Option Assignment :=
  match Text.trimChars line.toList with
  | '#' :: rest => ofBody? false (Text.trimStartChars (rest.dropWhile (· == '#')))
  | body => ofBody? true body

end Assignment

namespace Line

/-- A comment that is not an assignment commented out. -/
def isPlainComment (line : String) : Bool :=
  (Text.trimStartChars line.toList).head? == some '#' && (Assignment.ofLine? line).isNone

/-- The line of a key and a value. -/
def assign (key value : String) : String := key ++ "=" ++ value

/-- Gives an assignment line a new value and makes it active, in the spelling of its own key. An
active line that holds the value already stays as it is, as does a line that assigns nothing. -/
def reassign (value line : String) : String :=
  match Assignment.ofLine? line with
  | none => line
  | some a =>
    if a.active && a.value == value then line else Text.indent line ++ assign a.key value

/-- Comments a line out, after its indentation. -/
def commentOut (line : String) : String := Text.indent line ++ "#" ++ Text.trimStart line

end Line

/-! ## What a key addresses -/

inductive Route
  /-- A global setting, known or not. -/
  | global (key : String)
  /-- The flag of an integration test suite. -/
  | flag (suite : String)
  /-- A property of a section. -/
  | property (name suffix : String)
  /-- Nothing: the key has no dot, or nothing before or after it. -/
  | nowhere
deriving DecidableEq

namespace Route

/-- The key of an integration test flag. -/
def flagKey (suite : String) : String := "tests." ++ suite ++ ".run"

/-- The key of a section property. -/
def propertyKey (name suffix : String) : String := name ++ "." ++ suffix

/-- The suite between `tests.` and `.run`. -/
def suite? (key : List Char) : Option (List Char) :=
  match Text.stripStart "tests.".toList key with
  | none => none
  | some rest =>
    match Text.stripEnd ".run".toList rest with
    | some (c :: cs) => some (c :: cs)
    | _ => none

def ofKey (key : String) : Route :=
  if "global.".toList.isPrefixOf key.toList then global key
  else match suite? key.toList with
    | some suite => flag (String.ofList suite)
    | none =>
      match Text.splitFirst '.' key.toList with
      | some (c :: cs, d :: ds) => property (String.ofList (c :: cs)) (String.ofList (d :: ds))
      | _ => nowhere

/-- What the assignment on a line addresses, whether it is active or not. -/
def ofLine? (line : String) : Option Route := (Assignment.ofLine? line).map fun a => ofKey a.key

end Route

/-- Reads a boolean literal, whatever its case. -/
def readFlag (value : String) : Option Bool :=
  let v := Text.trim value
  if Text.sameName v "true" then some true
  else if Text.sameName v "false" then some false
  else none

end BuildChain
