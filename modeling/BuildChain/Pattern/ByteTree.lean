import BuildChain.Text.Utf8

/-!
# Trees of texts

A choice among texts is a tree of their bytes, in which texts share what they begin with. Where a
text ends the branches of its node are closed: a later text that goes on from there gets branches of
its own, behind the end, since an earlier text is preferred.
-/

namespace BuildChain.Pattern

inductive ByteTree
  /-- A node as it is when it is made. -/
  | bare
  /-- A text that ends at a node, behind what the node has so far. -/
  | ends (earlier : ByteTree)
  /-- A branch of a node, behind what the node has so far. -/
  | branch (earlier : ByteTree) (byte : Nat) (next : ByteTree)

namespace ByteTree

/-- Whether a text ends at the node and none goes on. -/
def isLast : ByteTree → Bool
  | ends bare => true
  | _ => false

/-- Changes the node behind a byte, which is made if no text has gone there since the last end. -/
def modify (byte : Nat) (f : ByteTree → ByteTree) : ByteTree → ByteTree
  | branch earlier b next =>
    if b = byte then branch earlier b (f next) else branch (modify byte f earlier) b next
  | t => branch t byte (f bare)

def add : List Nat → ByteTree → ByteTree
  | [], t => if t.isLast then t else ends t
  | b :: bs, t => t.modify b (add bs)

def ofTexts (texts : List (List Nat)) : ByteTree := texts.foldl (fun t text => t.add text) bare

/-! ## Size -/

/-- A number of states and of bytes. -/
abbrev Size := Nat × Nat

def Size.add (a b : Size) : Size := (a.1 + b.1, a.2 + b.2)

/-- A state for branches that no end parts, and the way to it: several branches weigh eight bytes
each. -/
def group : Nat → Size
  | 0 => (0, 0)
  | 1 => (1, 4)
  | n => (1, 4 + 8 * n)

/-- The states below a node, of whose current branches some have been counted. -/
def sizeBelow (counted : Nat) : ByteTree → Size
  | bare => group counted
  | ends earlier => Size.add (group counted) (Size.add (0, 4) (earlier.sizeBelow 0))
  | branch earlier _ next =>
    Size.add (if next.isLast then (0, 0) else Size.add (1, 0) (next.sizeBelow 0))
      (earlier.sizeBelow (counted + 1))

/-- A state for the end of all texts, one for the root, and those below. -/
def size (t : ByteTree) : Size := Size.add (2, 0) (t.sizeBelow 0)

end ByteTree

end BuildChain.Pattern
