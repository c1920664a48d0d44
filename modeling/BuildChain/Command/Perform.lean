import BuildChain.Command.Run

/-!
# Commands as actions

A command acts on the files and prints. As an action it does one thing after the other, and what was
written and printed before a failure stays: that a command which fails leaves the files alone is a
matter of the order of its steps.
-/

namespace BuildChain

/-- The files, and all that was printed. -/
structure World where
  directory : Directory
  output : String := ""

namespace Command

/-- What ends in a result or a failure, in a world that it may have changed either way. -/
abbrev Action := EStateM Failure World

/-- How the program ends: the chain is clean, it has errors, or the command failed. -/
def exitStatus : EStateM.Result Failure World Bool → Nat
  | .ok true _ => 0
  | .ok false _ => 1
  | .error _ _ => 2

/-- The world that a command leaves behind. -/
def worldAfter : EStateM.Result Failure World Bool → World
  | .ok _ world => world
  | .error _ world => world

namespace Action

/-! ## Steps -/

/-- Finds something out about the files. -/
def look {α : Type} (f : Directory → Except Failure α) : Action α := do
  match f (← get).directory with
  | .ok a => return a
  | .error e => throw e

def emit (text : String) : Action Unit :=
  modify fun world => { world with output := world.output ++ text }

/-- Writes a chain to a file. -/
def save (w : Writer) (file : String) (c : Chain) (failure : ChainFileError → Failure) :
    Action Unit := do
  let d ← look fun d => (ChainFile.write w d file c).mapError failure
  modify fun world => { world with directory := d }

/-- Writes a chain back and prints a summary, or shows the file for a dry run. -/
def finish (b : Workbench) (file : String) (c : Chain) (dryRun : Bool) (summary : Json) :
    Action Bool := do
  if dryRun then emit (b.render c)
  else
    save b.writer file c (.writing file)
    emit (print summary)
  return !(b.validate c).hasErrors

/-- Carries out an edit of a file, which also gives the summary. -/
def edit (b : Workbench) (file : String) (dryRun : Bool)
    (change : Chain → Except EditError (Chain × Json)) : Action Bool := do
  let c ← look fun d => readChain d file
  let (c, summary) ← look fun _ => (change c).mapError .edit
  finish b file c dryRun summary

/-- Prints what is left to say about a chain. -/
def report (b : Workbench) (file : String) (c : Chain) : Action Bool := do
  let report := b.validate c
  emit (print (reportJson file report))
  return !report.hasErrors

/-! ## Commands -/

def validate (b : Workbench) (file : String) : Action Bool := do
  report b file (← look fun d => readChain d file)

def fixing (b : Workbench) (file : String) : Chain → Except EditError (Chain × Json) := fun c =>
  let (c, summary) := b.fixAll c
  .ok (c, .object [("fixed", .number summary.fixed), ("reordered", .bool summary.reordered),
    ("remaining", reportJson file (b.validate c))])

def fix (b : Workbench) (file : String) (dryRun : Bool) : Action Bool :=
  edit b file dryRun (fixing b file)

/-- Lays the file out afresh, since lines that are there already are never moved. -/
def reordering (o : Order) : Chain → Except EditError (Chain × Json) := fun c =>
  .ok ({ o.reorder c with source := none }, .object [("reordered", .bool (!o.isOrdered c))])

def reorder (b : Workbench) (file : String) (dryRun : Bool) : Action Bool :=
  edit b file dryRun (reordering b.order)

/-- Carries out an edit that counts the sections it changes. -/
def count (b : Workbench) (file : String) (dryRun : Bool)
    (change : Chain → Except EditError (Chain × Nat)) (summary : Nat → Json) : Action Bool :=
  edit b file dryRun fun c => (change c).map fun r => (r.1, summary r.2)

/-- That nothing is named is found out before the file is looked at. -/
def setTests (b : Workbench) (file : String) (sections suites : List String)
    (enabled dryRun : Bool) : Action Bool := do
  if sections.isEmpty && suites.isEmpty then throw .noTarget
  count b file dryRun (editTests sections suites enabled) fun changed =>
    .object [("changed", .number changed), ("suites", .strings suites)]

def versions (file : String) : Action Bool := do
  let c ← look fun d => readChain d file
  emit (print (versionsJson (Release.summary c)))
  return true

def rebase (b : Workbench) (file : String) (build : Nat) (dryRun : Bool) : Action Bool :=
  edit b file dryRun fun c =>
    let (c, rewritten) := Release.rebase c build
    .ok (c, .object [("build", .number build), ("tagsRewritten", .number rewritten)])

def generate (b : Workbench) (request output : String) : Action Bool := do
  let text ← look fun d => (d.readText request).mapError (.requestFile request)
  let r ← look fun _ => (ChainRequest.ofText text).mapError .request
  let c ← look fun _ => (r.chain b.order).mapError .edit
  save b.writer output c .generating
  report b output c

end Action

open BuildChain.Command.Action in
/-- Carries out a command and tells whether the chain has no error in the end. -/
def perform (b : Workbench) : Command → Action Bool
  | validate file => Action.validate b file
  | fix file dryRun => Action.fix b file dryRun
  | reorder file dryRun => Action.reorder b file dryRun
  | setBranch file sections branch dryRun =>
    count b file dryRun (fun c => Edit.branch c sections branch) changedJson
  | setMode file sections mode forDevelopers dryRun =>
    count b file dryRun
      (fun c => if forDevelopers then Edit.devMode c sections mode else Edit.mode c sections mode)
      changedJson
  | setTests file sections suites enabled dryRun =>
    Action.setTests b file sections suites enabled dryRun
  | versions file => Action.versions file
  | rebase file build dryRun => Action.rebase b file build dryRun
  | generate request output => Action.generate b request output

end Command

namespace Invocation

open Command (Action)

/-- Where the rules come from. -/
def source (i : Invocation) : RuleSource :=
  match i.rules with
  | some path => .file path
  | none => .standard

/-- Reads the rules, then carries the command out; `stamp` is the time that fresh files show. -/
def perform (stamp : String) (i : Invocation) : Action Bool := do
  let rules ← Action.look fun d => (i.source.read d).mapError .rules
  i.command.perform (.ofRuleSet rules (some stamp))

end Invocation

end BuildChain
