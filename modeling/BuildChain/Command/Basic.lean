import BuildChain.Section

/-!
# Commands

A command names the chain file it works on and what is to be done with it. A dry run shows the file
as it would be and writes nothing.
-/

namespace BuildChain

inductive Command
  | validate (file : String)
  | fix (file : String) (dryRun : Bool)
  | reorder (file : String) (dryRun : Bool)
  | setBranch (file : String) (sections : List String) (branch : String) (dryRun : Bool)
  | setMode (file : String) (sections : List String) (mode : String) (forDevelopers dryRun : Bool)
  | setTests (file : String) (sections suites : List String) (enabled dryRun : Bool)
  | versions (file : String)
  | rebase (file : String) (build : Nat) (dryRun : Bool)
  | generate (request output : String)
deriving DecidableEq

/-- A command and the rule file it goes by, if there is one. -/
structure Invocation where
  rules : Option String
  command : Command
deriving DecidableEq

namespace Command

/-- The files that a command may read or write. -/
def files : Command → List String
  | validate file => [file]
  | fix file _ => [file]
  | reorder file _ => [file]
  | setBranch file _ _ _ => [file]
  | setMode file _ _ _ _ => [file]
  | setTests file _ _ _ _ => [file]
  | versions file => [file]
  | rebase file _ _ => [file]
  | generate request output => [request, output]

end Command

namespace Invocation

def files (i : Invocation) : List String := i.rules.toList ++ i.command.files

end Invocation

end BuildChain
