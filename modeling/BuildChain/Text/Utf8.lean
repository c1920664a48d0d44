import BuildChain.Text.Ranges

/-!
# Characters as bytes

A character is one to four bytes in UTF-8: its number is written to base 64, and each byte adds bits
that mark its place to one digit. A range of characters is written as runs of byte ranges. The bytes
of a character lie in the byte ranges of one run, one by one, if and only if the character lies in
the range.
-/

namespace BuildChain.Text

def utf8Bytes (cs : List Char) : List Nat :=
  cs.flatMap fun c => (String.utf8EncodeChar c).map (·.toNat)

def utf8Length (cs : List Char) : Nat := cs.foldl (fun n c => n + c.utf8Size) 0

/-- The numbers of `k + 1` digits to base 64 from `a` to `b`, as products of ranges of digits. -/
def digitRuns : Nat → Nat → Nat → List Ranges
  | 0, a, b => [[(a, b)]]
  | k + 1, a, b =>
    let unit := Nat.pow 64 (k + 1)
    let (first, last) := (a / unit, b / unit)
    let (low, high) := (a % unit, b % unit)
    if first = last then (digitRuns k low high).map ((first, first) :: ·)
    else
      let opening := if low = 0 then [] else digitRuns k low (unit - 1)
      let ending := if high = unit - 1 then [] else digitRuns k 0 high
      let start := if low = 0 then first else first + 1
      let stop := if high = unit - 1 then last + 1 else last
      let middle := (start, stop - 1) :: List.replicate (k + 1) (0, 63)
      opening.map ((first, first) :: ·) ++ (if start < stop then [middle] else []) ++
        ending.map ((last, last) :: ·)

/-- Characters of one length. -/
structure ByteLength where
  first : Nat
  last : Nat
  /-- The number of bytes after the first. -/
  more : Nat
  /-- What the first byte adds to its digit. -/
  mark : Nat

namespace ByteLength

/-- Surrogates are no characters, so that the characters of three bytes make up two rows. -/
def all : List ByteLength :=
  [⟨0, 0x7F, 0, 0⟩, ⟨0x80, 0x7FF, 1, 0xC0⟩, ⟨0x800, 0xD7FF, 2, 0xE0⟩, ⟨0xE000, 0xFFFF, 2, 0xE0⟩,
    ⟨0x10000, 0x10FFFF, 3, 0xF0⟩]

def shift (n : Nat) (r : Nat × Nat) : Nat × Nat := (r.1 + n, r.2 + n)

/-- A run of digits as a run of bytes. -/
def bytes (l : ByteLength) : Ranges → Ranges
  | [] => []
  | r :: rs => shift l.mark r :: rs.map (shift 0x80)

end ByteLength

/-- The runs of a range of characters, in ascending order. -/
def byteRuns (r : Nat × Nat) : List Ranges :=
  ByteLength.all.flatMap fun l =>
    let (a, b) := (max r.1 l.first, min r.2 l.last)
    if a ≤ b then (digitRuns l.more a b).map l.bytes else []

end BuildChain.Text
