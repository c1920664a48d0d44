import BuildChain.Pattern.Plan
import BuildChain.Pattern.RunTree

/-!
# The size of an automaton

An automaton is drawn state by state as its plan says, and only its size is kept: a state weighs
thirty-two bytes, a branch on a range of bytes eight, and a way to one of several next states four.

A set of characters is drawn as runs of byte ranges. Equal states of one set are drawn once as long
as a table remembers them; the table has a place for each hash value of a state, and the latest
state there is the one that it remembers.
-/

namespace BuildChain.Pattern

open Text

/-- An automaton as far as it is drawn. A state is known by the number of states before it. -/
structure Automaton where
  states : Nat
  /-- What the states weigh beyond the first thirty-two bytes of each. -/
  bytes : Nat
  /-- What some states are made of, in numbers, and the states. -/
  table : Array (List Nat × Nat)

namespace Automaton

/-- The number of places in the table. -/
def places : Direction → Nat
  | .forward => 10000
  | .backward => 1000

def empty (d : Direction) : Automaton := ⟨0, 0, Array.replicate (places d) ([], 0)⟩

def size (m : Automaton) : Nat := 32 * m.states + m.bytes

def maxSize : Nat := 10 * Nat.pow 2 20

def isLarge (m : Automaton) : Bool := maxSize < m.size

def add (states bytes : Nat) (m : Automaton) : Automaton :=
  { m with states := m.states + states, bytes := m.bytes + bytes }

@[simp] theorem size_add (states bytes : Nat) (m : Automaton) :
    (m.add states bytes).size = m.size + 32 * states + bytes := by
  simp only [add, size]
  omega

/-! ## Sets -/

/-- The hash FNV-1a of numbers, the last one first. -/
def hash : List Nat → UInt64
  | [] => 14695981039346656037
  | n :: key => (hash key ^^^ n.toUInt64) * 1099511628211

/-- The state that is made of the numbers `key`: one from `first` on, if the table remembers it, or
else a new one that weighs the given bytes. -/
def intern (first : Nat) (key : List Nat) (bytes : Nat) (m : Automaton) : Nat × Automaton :=
  let place := (hash key % m.table.size.toUInt64).toNat
  match (m.table[place]?).filter fun e => first ≤ e.2 && e.1 == key with
  | some e => (e.2, m)
  | none =>
    (m.states, ⟨m.states + 1, m.bytes + bytes, m.table.setIfInBounds place (key, m.states)⟩)

/-- The state for a node with the given branches, three numbers each. -/
def internNode (target : Nat) (branches : List Nat) (m : Automaton) : Nat × Automaton :=
  m.intern target branches (8 * (branches.length / 3))

/-- Draws what lies below a node for reading forward. The result names its branches, the last one
first, by their bytes and next states; the last bytes of runs lead to the target. -/
def drawBelow (target : Nat) : RunTree → Automaton → List Nat × Automaton
  | .leaf, m | .bare, m => ([], m)
  | .branch earlier bytes next, m =>
    let (branches, m) := drawBelow target earlier m
    let (state, m) :=
      if next.isLeaf then (target, m)
      else
        let (below, m) := drawBelow target next m
        m.internNode target below
    (state :: bytes.2 :: bytes.1 :: branches, m)

/-- Draws a run for reading backward: its first byte is read last and leads to the target. -/
def drawRun (target : Nat) (run : Ranges) (m : Automaton) : Automaton :=
  (run.foldl (fun (next, m) r => m.intern target [r.2, r.1, next] 0) (target, m)).2.add 0 4

def drawSet (d : Direction) (ranges : Ranges) (m : Automaton) : Automaton :=
  let runs := ranges.flatMap byteRuns
  match d with
  | .forward =>
    let target := m.states
    let (branches, m) := drawBelow target (RunTree.ofRuns runs) (m.add 1 0)
    (m.internNode target branches).2
  | .backward =>
    let target := m.states + 1
    runs.foldl (fun m run => m.drawRun target run) (m.add 2 0)

/-! ## Plans -/

/-- Draws a number of times, until the automaton is too large. -/
def drawCopies (draw : Automaton → Automaton) : Nat → Automaton → Automaton
  | 0, m => m
  | n + 1, m => if m.isLarge then m else drawCopies draw n (draw m)

/-- Draws what a plan says. An automaton that is too large gets no more sets. -/
def draw (d : Direction) : Plan → Automaton → Automaton
  | .states n bytes, m => m.add n bytes
  | .set ranges, m => if m.isLarge then m else m.drawSet d ranges
  | .seq a b, m => draw d b (draw d a m)
  | .copies n a, m => drawCopies (draw d a) n m

end Automaton

/-- Whether the automaton of a term is small enough in both directions. -/
def Term.isSmall (t : Term) : Bool :=
  let fits (d : Direction) : Bool := !((Automaton.empty d).draw d (t.plan d)).isLarge
  fits .forward && fits .backward

end BuildChain.Pattern
