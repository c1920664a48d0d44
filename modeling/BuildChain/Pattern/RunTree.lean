import BuildChain.Text.Utf8

/-!
# Trees of byte runs

Byte runs that follow one another share what they begin with. In a tree of runs every node has
branches in the order of the runs, and the last run of a set lies at the last branches.
-/

namespace BuildChain.Pattern

open Text

inductive RunTree
  /-- The end of a run. -/
  | leaf
  /-- A node without branches. -/
  | bare
  /-- A node with one more branch, behind the earlier ones. -/
  | branch (earlier : RunTree) (bytes : Nat × Nat) (next : RunTree)

namespace RunTree

def isLeaf : RunTree → Bool
  | leaf => true
  | _ => false

/-- Adds a run behind the others. -/
def add : Ranges → RunTree → RunTree
  | [], _ => leaf
  | r :: rs, branch earlier s next =>
    if r = s then branch earlier s (add rs next)
    else branch (branch earlier s next) r (add rs bare)
  | r :: rs, t => branch t r (add rs bare)

def ofRuns (runs : List Ranges) : RunTree := runs.foldl (fun t run => t.add run) bare

end RunTree

end BuildChain.Pattern
