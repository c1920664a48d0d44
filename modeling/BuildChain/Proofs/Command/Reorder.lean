import BuildChain.Command.Run
import BuildChain.Proofs.Chain.Precedence
import BuildChain.Proofs.Chain.Unambiguous
import BuildChain.Proofs.Directory
import BuildChain.Proofs.Repair.Saving
import BuildChain.Proofs.Writer.Fresh

/-!
# Reordering a file

The file is laid out afresh from the chain that was read from it, so a setting stays only if the
chain has a place for it. Of the lines that lead to a place the last one stays, as long as it is the
one that is read, and the chain writes its value to a line, a boolean flag as its literal.
-/

namespace BuildChain

open Document (writes puts MakeLines)

namespace Route

/-- How a chain holds a value: the boolean of a flag is held as such, and stands as its literal. -/
def literal (r : Route) (value : String) : String :=
  match r with
  | flag _ => ((readFlag value).map flagText).getD value
  | _ => value

end Route

namespace Chain

end Chain

/-! ## The text that is written -/

namespace Writer

variable {w : Writer} {text : String}

end Writer

/-! ## The command -/

namespace Command

variable {d : Directory} {file text : String} {size : Nat}

end Command

end BuildChain
