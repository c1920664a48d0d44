/-!
# Build numbers as text

A build number is a decimal numeral below `2 ^ 64`, with an optional plus sign in front and nothing
else around it.
-/

namespace BuildChain.Text

def isDigit (c : Char) : Bool := 48 ≤ c.toNat && c.toNat ≤ 57

/-- A non-empty run of the digits `0` to `9`. -/
def isNumeral (cs : List Char) : Bool := !cs.isEmpty && cs.all isDigit

def numeralValue (cs : List Char) : Nat :=
  cs.foldl (fun n c => 10 * n + (c.toNat - 48)) 0

/-- The first number that is no build number. -/
def buildLimit : Nat := Nat.pow 2 64

def readDigits (cs : List Char) : Option Nat :=
  if isNumeral cs && numeralValue cs < buildLimit then some (numeralValue cs) else none

/-- Reads a build number. -/
def readNumber (s : String) : Option Nat :=
  match s.toList with
  | '+' :: cs => readDigits cs
  | cs => readDigits cs

end BuildChain.Text
