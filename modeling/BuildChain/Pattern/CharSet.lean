import BuildChain.Text.Blank
import BuildChain.Text.CaseVariants
import BuildChain.Text.Word

/-!
# Sets of characters

The sets that a naming pattern can ask for, as expressions with a membership test and a list of
their members.
-/

namespace BuildChain.Pattern

inductive CharSet
  /-- The code points from the first to the last. -/
  | range (first last : Nat)
  | word
  | decimal
  | space
  | union (a b : CharSet)
  | inter (a b : CharSet)
  | diff (a b : CharSet)
  | symmDiff (a b : CharSet)
  | compl (a : CharSet)
  /-- All case variants of the characters of a set. -/
  | anyCase (a : CharSet)
deriving DecidableEq

namespace CharSet

def has : CharSet → Char → Bool
  | range first last, c => first ≤ c.toNat && c.toNat ≤ last
  | word, c => Text.isWord c
  | decimal, c => Text.isDecimal c
  | space, c => Text.isSpace c
  | union a b, c => a.has c || b.has c
  | inter a b, c => a.has c && b.has c
  | diff a b, c => a.has c && !b.has c
  | symmDiff a b, c => a.has c != b.has c
  | compl a, c => !a.has c
  | anyCase a, c => (Text.caseVariants c).any fun d => a.has d

def none : CharSet := range 1 0

def all : CharSet := compl none

def single (c : Char) : CharSet := range c.toNat c.toNat

def between (a b : Char) : CharSet := range a.toNat b.toNat

def unionAll : List CharSet → CharSet
  | [] => none
  | [a] => a
  | a :: as => union a (unionAll as)

def digit : CharSet := between '0' '9'

def lower : CharSet := between 'a' 'z'

def upper : CharSet := between 'A' 'Z'

/-- All characters but the line feed. -/
def notLineFeed : CharSet := compl (single '\n')

/-! ## Members -/

def asciiWordRanges : Text.Ranges := [(48, 57), (65, 90), (95, 95), (97, 122)]

/-- White space ends at U+3000. -/
def spaceRanges : Text.Ranges :=
  .normal (.singles ((List.range 0x3001).filter fun n => Text.isSpace (Char.ofNat n)))

/-- The members of a set, in normal form. -/
def ranges : CharSet → Text.Ranges
  | range first last => .normal [(first, last)]
  | word => asciiWordRanges ++ Text.wordRanges
  | decimal => (48, 57) :: Text.decimalRanges
  | space => spaceRanges
  | union a b => .union a.ranges b.ranges
  | inter a b => .inter a.ranges b.ranges
  | diff a b => .diff a.ranges b.ranges
  | symmDiff a b => .union (.diff a.ranges b.ranges) (.diff b.ranges a.ranges)
  | compl a => .compl a.ranges
  | anyCase a => .normal (Text.withCaseVariants a.ranges)

end CharSet

end BuildChain.Pattern
