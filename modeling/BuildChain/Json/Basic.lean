/-!
# JSON values and their text

A value is written without white space by `Json.compact`, and over several lines by `Json.pretty`,
which indents by two spaces and leaves empty arrays and objects on one line. Members appear in the
order they are given; `Json.sorted` puts them in the order of their keys first.
-/

namespace BuildChain

inductive Json
  | null
  | bool (b : Bool)
  | number (n : Nat)
  | string (s : String)
  | array (items : List Json)
  | object (members : List (String × Json))

namespace Json

/-! ## Building values -/

/-- The value of something that may be absent. -/
def ofOption {α : Type} (f : α → Json) : Option α → Json
  | some a => f a
  | none => null

def text? (s : Option String) : Json := ofOption string s

def strings (l : List String) : Json := array (l.map string)

/-! ## Strings -/

def hexDigit (n : Nat) : Char := if n < 10 then Char.ofNat (48 + n) else Char.ofNat (87 + n)

/-- Quotes, backslashes and the controls below the space are escaped; five of the controls have a
short form. -/
def escapeChar (c : Char) : List Char :=
  if c = '"' then ['\\', '"']
  else if c = '\\' then ['\\', '\\']
  else if c.toNat = 8 then ['\\', 'b']
  else if c = '\t' then ['\\', 't']
  else if c = '\n' then ['\\', 'n']
  else if c.toNat = 12 then ['\\', 'f']
  else if c = '\r' then ['\\', 'r']
  else if c.toNat < 32 then
    ['\\', 'u', '0', '0', hexDigit (c.toNat / 16), hexDigit (c.toNat % 16)]
  else [c]

def quote (s : String) : String :=
  String.ofList ('"' :: (s.toList.flatMap escapeChar ++ ['"']))

/-! ## Compact text -/

mutual

def compact : Json → String
  | null => "null"
  | bool b => if b then "true" else "false"
  | number n => toString n
  | string s => quote s
  | array items => "[" ++ String.intercalate "," (compactItems items) ++ "]"
  | object members => "\x7b" ++ String.intercalate "," (compactMembers members) ++ "\x7d"

def compactItems : List Json → List String
  | [] => []
  | v :: vs => compact v :: compactItems vs

def compactMembers : List (String × Json) → List String
  | [] => []
  | (key, v) :: ms => (quote key ++ ":" ++ compact v) :: compactMembers ms

end

/-! ## Text over several lines -/

/-- Puts rows between brackets, each on a line of its own behind the margin. -/
def bracket (opening closing margin : String) (rows : List String) : String :=
  if rows.isEmpty then opening ++ closing
  else
    opening ++ "\n" ++
      String.intercalate ",\n" (rows.map fun row => margin ++ "  " ++ row) ++
      "\n" ++ margin ++ closing

mutual

def prettyFrom (margin : String) : Json → String
  | null => "null"
  | bool b => if b then "true" else "false"
  | number n => toString n
  | string s => quote s
  | array items => bracket "[" "]" margin (prettyItems (margin ++ "  ") items)
  | object members => bracket "\x7b" "\x7d" margin (prettyMembers (margin ++ "  ") members)

def prettyItems (margin : String) : List Json → List String
  | [] => []
  | v :: vs => prettyFrom margin v :: prettyItems margin vs

def prettyMembers (margin : String) : List (String × Json) → List String
  | [] => []
  | (key, v) :: ms => (quote key ++ ": " ++ prettyFrom margin v) :: prettyMembers margin ms

end

def pretty (v : Json) : String := prettyFrom "" v

/-! ## Members in the order of their keys -/

mutual

def sorted : Json → Json
  | array items => array (sortedItems items)
  | object members =>
    object ((sortedMembers members).mergeSort fun a b => decide (a.1 ≤ b.1))
  | v => v

def sortedItems : List Json → List Json
  | [] => []
  | v :: vs => sorted v :: sortedItems vs

def sortedMembers : List (String × Json) → List (String × Json)
  | [] => []
  | (key, v) :: ms => (key, sorted v) :: sortedMembers ms

end

end Json

end BuildChain
