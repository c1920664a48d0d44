import BuildChain.Json.Draft
import BuildChain.Text.Numeral

/-!
# Reading JSON text

Every function consumes its part of the text from the front and gives back the rest, or no rest at
all when the grammar was violated. The fuel of the mutual readers is three times the length of the
text: of any three steps in a row at least one consumes a character.
-/

namespace BuildChain.Json

def isJsonSpace (c : Char) : Bool := c == ' ' || c == '\n' || c == '\t' || c == '\r'

def skipSpace (cs : List Char) : List Char := cs.dropWhile isJsonSpace

/-! ## Strings -/

def hexValue (c : Char) : Option Nat :=
  let n := c.toNat
  if 48 ≤ n && n ≤ 57 then some (n - 48)
  else if 97 ≤ n && n ≤ 102 then some (n - 87)
  else if 65 ≤ n && n ≤ 70 then some (n - 55)
  else none

def hexFour (a b c d : Char) : Option Nat := do
  let a ← hexValue a
  let b ← hexValue b
  let c ← hexValue c
  let d ← hexValue d
  return ((a * 16 + b) * 16 + c) * 16 + d

def shortEscape (c : Char) : Option Char :=
  match c with
  | '"' => some '"'
  | '\\' => some '\\'
  | '/' => some '/'
  | 'b' => some (Char.ofNat 8)
  | 'f' => some (Char.ofNat 12)
  | 'n' => some '\n'
  | 'r' => some '\r'
  | 't' => some '\t'
  | _ => none

/-- Reads a string up to its closing quote. `high` is a leading surrogate that waits for the other
half of its pair, and `sound` tells whether all surrogates so far were paired. The result is absent
when the token is broken, and its text is absent when some surrogate has no partner. -/
def readStringFrom (high : Option Nat) (sound : Bool) (acc : List Char) :
    List Char → Option (Option String × List Char)
  | [] => none
  | '"' :: rest =>
    some (if sound && high.isNone then some (String.ofList acc.reverse) else none, rest)
  | '\\' :: 'u' :: a :: b :: c :: d :: rest =>
    match hexFour a b c d with
    | none => none
    | some n =>
      if 0xDC00 ≤ n && n ≤ 0xDFFF then
        match high with
        | some h =>
          readStringFrom none sound
            (Char.ofNat (0x10000 + (h - 0xD800) * 0x400 + (n - 0xDC00)) :: acc) rest
        | none => readStringFrom none false acc rest
      else if 0xD800 ≤ n && n ≤ 0xDBFF then
        readStringFrom (some n) (sound && high.isNone) acc rest
      else readStringFrom none (sound && high.isNone) (Char.ofNat n :: acc) rest
  | '\\' :: c :: rest =>
    match shortEscape c with
    | some e => readStringFrom none (sound && high.isNone) (e :: acc) rest
    | none => none
  | c :: rest =>
    if c = '\\' || c.toNat < 32 then none
    else readStringFrom none (sound && high.isNone) (c :: acc) rest

/-- Reads a string whose opening quote is consumed already. -/
def readString (cs : List Char) : Option (Option String × List Char) :=
  readStringFrom none true [] cs

/-! ## Numbers -/

/-- The digits of a number in front of its power of ten: as many of the leading digits as fit below
`2 ^ 64`, and the power of ten they stand at. -/
structure Significand where
  digits : Nat := 0
  power : Int := 0
  /-- Whether a digit has been left out. -/
  full : Bool := false

namespace Significand

def takes (s : Significand) (d : Nat) : Bool := s.digits * 10 + d < Text.buildLimit

/-- A digit before the point; once one is left out, all that follow it are. -/
def pushWhole (s : Significand) (c : Char) : Significand :=
  let d := c.toNat - 48
  if !s.full && s.takes d then { s with digits := s.digits * 10 + d }
  else { s with power := s.power + 1, full := true }

/-- A digit after the point; once one is left out, all that follow it are. -/
def pushFraction (s : Significand × Bool) (c : Char) : Significand × Bool :=
  let d := c.toNat - 48
  if s.2 && s.1.takes d then
    ({ s.1 with digits := s.1.digits * 10 + d, power := s.1.power - 1 }, true)
  else (s.1, false)

end Significand

/-- Divides by the largest power of ten below the limit of the format until the power that remains
is in range, then multiplies or divides by that power. Every step rounds. -/
def scaleTen (x : Binary64) : Nat → Int → Option Binary64
  | 0, _ => some Binary64.zero
  | fuel + 1, power =>
    if x.isZero then some x
    else if 308 < power then none
    else if 0 ≤ power then
      (Binary64.ofNat (Nat.pow 10 power.toNat)).bind fun p => x.mul p
    else if -308 ≤ power then
      (Binary64.ofNat (Nat.pow 10 (-power).toNat)).bind fun p => x.div p
    else
      ((Binary64.ofNat (Nat.pow 10 308)).bind fun p => x.div p).bind fun y =>
        scaleTen y fuel (power + 308)

def realDraft (negative : Bool) (s : Significand) : Draft :=
  match (Binary64.ofNat s.digits).bind fun x => scaleTen x 5 s.power with
  | some x => .number (.real negative x)
  | none => .valueless

/-- An integer, or a floating point number when it is out of range or a negative zero. -/
def wholeDraft (negative : Bool) (s : Significand) : Draft :=
  if s.full then realDraft negative s
  else if !negative then .number (.integer s.digits)
  else if s.digits = 0 || Nat.pow 2 63 < s.digits then realDraft true s
  else .number (.integer (-(s.digits : Int)))

/-- The part of a number from its exponent mark on. -/
def readExponent (negative : Bool) (s : Significand) (cs : List Char) :
    Draft × Option (List Char) :=
  let (down, cs) := match cs with
    | '+' :: rest => (false, rest)
    | '-' :: rest => (true, rest)
    | rest => (false, rest)
  let digits := cs.takeWhile Text.isDigit
  if digits.isEmpty then (.broken, none)
  else
    let n : Int := Text.numeralValue digits
    let power := if down then s.power - n else s.power + n
    (realDraft negative { s with power := power }, some (cs.dropWhile Text.isDigit))

/-- What follows the whole part of a number. -/
def readNumberTail (negative : Bool) (s : Significand) (cs : List Char) :
    Draft × Option (List Char) :=
  match cs with
  | '.' :: rest =>
    let digits := rest.takeWhile Text.isDigit
    let s := (digits.foldl Significand.pushFraction (s, true)).1
    if digits.isEmpty then (.broken, none)
    else match rest.dropWhile Text.isDigit with
      | 'e' :: rest => readExponent negative s rest
      | 'E' :: rest => readExponent negative s rest
      | rest => (realDraft negative s, some rest)
  | 'e' :: rest => readExponent negative s rest
  | 'E' :: rest => readExponent negative s rest
  | rest => (wholeDraft negative s, some rest)

/-- Reads a number without its sign; a zero in front stands alone. -/
def readMagnitude (negative : Bool) (cs : List Char) : Draft × Option (List Char) :=
  let digits := cs.takeWhile Text.isDigit
  match digits with
  | [] => (.broken, none)
  | '0' :: _ :: _ => (.broken, none)
  | _ =>
    readNumberTail negative (digits.foldl Significand.pushWhole {}) (cs.dropWhile Text.isDigit)

/-! ## Values -/

mutual

def readValue : Nat → List Char → Draft × Option (List Char)
  | 0, _ => (.broken, none)
  | fuel + 1, cs =>
    match skipSpace cs with
    | '"' :: rest =>
      match readString rest with
      | some (some s, rest) => (.string s, some rest)
      | some (none, rest) => (.valueless, some rest)
      | none => (.broken, none)
    | '[' :: rest => readItems fuel true [] rest
    | '{' :: rest => readMembers fuel true [] rest
    | 't' :: 'r' :: 'u' :: 'e' :: rest => (.bool true, some rest)
    | 'f' :: 'a' :: 'l' :: 's' :: 'e' :: rest => (.bool false, some rest)
    | 'n' :: 'u' :: 'l' :: 'l' :: rest => (.null, some rest)
    | '-' :: rest => readMagnitude true rest
    | rest => readMagnitude false rest

/-- Reads the items of an array from the place behind its bracket or an item. -/
def readItems : Nat → Bool → List Draft → List Char → Draft × Option (List Char)
  | 0, _, acc, _ => (.array acc.reverse false, none)
  | fuel + 1, first, acc, cs =>
    match first, skipSpace cs with
    | _, ']' :: rest => (.array acc.reverse true, some rest)
    | _, [] => (.array acc.reverse false, none)
    | true, rest => readItem fuel acc rest
    | false, ',' :: rest =>
      match skipSpace rest with
      | [] => (.array acc.reverse false, none)
      | ']' :: _ => (.array acc.reverse false, none)
      | rest => readItem fuel acc rest
    | false, _ => (.array acc.reverse false, none)

def readItem : Nat → List Draft → List Char → Draft × Option (List Char)
  | 0, acc, _ => (.array acc.reverse false, none)
  | fuel + 1, acc, cs =>
    match readValue fuel cs with
    | (d, some rest) => readItems fuel false (d :: acc) rest
    | (d, none) => (.array (d :: acc).reverse false, none)

/-- Reads the members of an object from the place behind its brace or a member. -/
def readMembers : Nat → Bool → List (Option String × Draft) → List Char →
    Draft × Option (List Char)
  | 0, _, acc, _ => (.object acc.reverse false, none)
  | fuel + 1, first, acc, cs =>
    match first, skipSpace cs with
    | _, '}' :: rest => (.object acc.reverse true, some rest)
    | true, rest => readMember fuel acc rest
    | false, ',' :: rest => readMember fuel acc (skipSpace rest)
    | false, _ => (.object acc.reverse false, none)

def readMember : Nat → List (Option String × Draft) → List Char → Draft × Option (List Char)
  | 0, acc, _ => (.object acc.reverse false, none)
  | fuel + 1, acc, cs =>
    match cs with
    | '"' :: rest =>
      match readString rest with
      | none => (.object acc.reverse false, none)
      | some (key, rest) =>
        match skipSpace rest with
        | ':' :: rest =>
          match readValue fuel rest with
          | (d, some rest) => readMembers fuel false ((key, d) :: acc) rest
          | (d, none) => (.object ((key, d) :: acc).reverse false, none)
        | _ => (.object ((key, .broken) :: acc).reverse false, none)
    | _ => (.object acc.reverse false, none)

end

/-- A text read as one value. -/
structure Reading where
  draft : Draft
  /-- Whether nothing but white space follows the value. -/
  complete : Bool

def read (text : String) : Reading :=
  let cs := text.toList
  match readValue (3 * cs.length + 3) cs with
  | (d, some rest) => ⟨d, (skipSpace rest).isEmpty⟩
  | (d, none) => ⟨d, false⟩

end BuildChain.Json
