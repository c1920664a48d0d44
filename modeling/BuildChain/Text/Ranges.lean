/-!
# Ranges of code points

A set of characters is a list of ranges of code points with both ends included. In normal form the
ranges ascend, and no two of them overlap or touch. Surrogates are no characters, so that they do
not count inside a range, and no range of a complement starts or ends with one.
-/

namespace BuildChain.Text

abbrev Ranges := List (Nat × Nat)

def inRanges (ranges : Ranges) (n : Nat) : Bool := ranges.any fun r => r.1 ≤ n && n ≤ r.2

namespace Ranges

def last : Nat := 0x10FFFF

/-- Joins a range to ascending ranges, none of which starts before it. -/
def join (r : Nat × Nat) : Ranges → Ranges
  | [] => [r]
  | s :: rs => if s.1 ≤ r.2 + 1 then join (r.1, max r.2 s.2) rs else r :: s :: rs

def normal (ranges : Ranges) : Ranges :=
  (ranges.filter fun r => r.1 ≤ r.2).mergeSort (fun r s => r.1 ≤ s.1) |>.foldr join []

/-- The code point of the next character. -/
def after (n : Nat) : Nat := if n = 0xD7FF then 0xE000 else n + 1

/-- The code point of the character before. -/
def before (n : Nat) : Nat := if n = 0xE000 then 0xD7FF else n - 1

/-- The gaps of ranges in normal form, from a code point on. -/
def gapsFrom (first : Nat) : Ranges → Ranges
  | [] => if first ≤ last then [(first, last)] else []
  | r :: rs =>
    let rest := gapsFrom (after r.2) rs
    if first < r.1 then (first, before r.1) :: rest else rest

def compl (ranges : Ranges) : Ranges := gapsFrom 0 (normal ranges)

def union (a b : Ranges) : Ranges := normal (a ++ b)

def inter (a b : Ranges) : Ranges := compl (union (compl a) (compl b))

def diff (a b : Ranges) : Ranges := inter a (compl b)

def singles (points : List Nat) : Ranges := points.map fun n => (n, n)

end Ranges

end BuildChain.Text
