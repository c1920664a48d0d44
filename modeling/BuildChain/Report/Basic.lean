import BuildChain.Text.Fold

/-!
# Issues and reports

An issue is one thing that a rule found in a chain. A report holds the issues of a validation in the
order of the rules, and the faults of the rules that could not be checked.
-/

namespace BuildChain

/-! ## Issues -/

inductive Severity
  | error
  | warning
deriving DecidableEq

namespace Severity

def text : Severity → String
  | error => "error"
  | warning => "warning"

end Severity

structure Issue where
  ruleId : String
  message : String
  severity : Severity
  sectionName : Option String := none
  /-- The property, the global key or the suite that is at fault. -/
  target : Option String := none
  fixable : Bool := false
  suggestion : Option String := none
deriving DecidableEq

namespace Issue

def isError (i : Issue) : Bool := i.severity = .error

/-- An issue on one line. -/
def display (i : Issue) : String :=
  let place := match i.sectionName with
    | some name => " (" ++ name ++ ")"
    | none => ""
  "[" ++ i.severity.text ++ "] " ++ i.ruleId ++ place ++ ": " ++ i.message

end Issue

/-! ## Reports -/

/-- A rule that could not be checked, and why. -/
structure Fault where
  ruleId : String
  message : String
deriving DecidableEq

structure Report where
  issues : List Issue := []
  faults : List Fault := []
deriving DecidableEq

namespace Report

def isClean (r : Report) : Bool := r.issues.isEmpty

def hasErrors (r : Report) : Bool := r.issues.any Issue.isError

def errorCount (r : Report) : Nat := (r.issues.filter Issue.isError).length

def warningCount (r : Report) : Nat := (r.issues.filter fun i => !i.isError).length

def byRule (r : Report) (id : String) : List Issue := r.issues.filter fun i => i.ruleId = id

def forSection (r : Report) (name : String) : List Issue :=
  r.issues.filter fun i => i.sectionName.any fun n => Text.sameName n name

/-- The errors that a repair can be tried on. -/
def fixableErrors (r : Report) : List Issue :=
  r.issues.filter fun i => i.isError && i.fixable

end Report

end BuildChain
