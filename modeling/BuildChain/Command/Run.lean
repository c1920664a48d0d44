import BuildChain.ChainFile
import BuildChain.Command.Basic
import BuildChain.Release
import BuildChain.Report.Json
import BuildChain.Request
import BuildChain.RuleSet.Source
import BuildChain.Workbench

/-!
# Carrying out commands

A command reads the rules and its file, changes the chain, and writes the file back or shows it.
What it prints is JSON, except for the file that a dry run shows. A command that fails leaves the
directory as it was.
-/

namespace BuildChain.Command

/-! ## Failures -/

inductive Failure
  | rules (e : RuleSourceError)
  | reading (path : String) (e : ChainFileError)
  | edit (e : EditError)
  /-- Neither a section nor a suite is named. -/
  | noTarget
  | writing (path : String) (e : ChainFileError)
  | requestFile (path : String) (e : FileError)
  | request (e : Json.ShapeError)
  | generating (e : ChainFileError)
deriving DecidableEq

namespace Failure

/-- The failure and what caused it, from the outside in. -/
def causes : Failure → List String
  | rules e =>
    ["loading rule configuration", "rule configuration error: " ++ e.message] ++ e.causes
  | reading path e => ["reading " ++ path, "parse failed: " ++ e.message] ++ e.causes
  | edit e => [e.message]
  | noTarget => ["name at least one section or --suite"]
  | writing path e => ["writing " ++ path, "write failed: " ++ e.message] ++ e.causes
  | requestFile path e => ["reading " ++ path, e.message]
  | request e => ["decoding generation request", e.message]
  | generating e => ("write failed: " ++ e.message) :: e.causes

def message (f : Failure) : String := String.intercalate ": " f.causes

end Failure

/-! ## Outcomes -/

structure Outcome where
  directory : Directory
  output : String
  /-- Whether the chain has no error in the end. -/
  clean : Bool

/-- What a command prints as JSON. -/
def print (v : Json) : String := v.sorted.pretty ++ "\n"

def reportJson (path : String) (r : Report) : Json :=
  .object [("file", .string path), ("errors", .number r.errorCount),
    ("warnings", .number r.warningCount), ("issues", r.issuesJson), ("faults", r.faultsJson)]

def versionsJson (s : Release.Summary) : Json :=
  .object [("global_version", .text? s.version), ("dev_version", .text? s.devVersion),
    ("sections", .array (s.sections.map fun v =>
      .object [("section", .string v.sectionName), ("tag", .string v.tag),
        ("build", .ofOption .number v.build)]))]

/-! ## Steps -/

def readChain (d : Directory) (file : String) : Except Failure Chain :=
  match ChainFile.read ChainFile.maxSize d file with
  | .ok c => .ok c
  | .error e => .error (.reading file e)

/-- Writes a chain back and prints a summary, or shows the file for a dry run. -/
def finish (b : Workbench) (d : Directory) (file : String) (c : Chain) (dryRun : Bool)
    (summary : Json) : Except Failure Outcome :=
  let clean := !(b.validate c).hasErrors
  if dryRun then .ok ⟨d, b.render c, clean⟩
  else
    match ChainFile.write b.writer d file c with
    | .ok d => .ok ⟨d, print summary, clean⟩
    | .error e => .error (.writing file e)

/-- Carries out an edit that counts the sections it changes. -/
def edited (b : Workbench) (d : Directory) (file : String) (dryRun : Bool)
    (edit : Chain → Except EditError (Chain × Nat)) (summary : Nat → Json) :
    Except Failure Outcome := do
  let c ← readChain d file
  match edit c with
  | .error e => .error (.edit e)
  | .ok (c, changed) => finish b d file c dryRun (summary changed)

def changedJson (changed : Nat) : Json := .object [("changed", .number changed)]

/-! ## Commands -/

def runValidate (b : Workbench) (d : Directory) (file : String) : Except Failure Outcome := do
  let c ← readChain d file
  let report := b.validate c
  return ⟨d, print (reportJson file report), !report.hasErrors⟩

def runFix (b : Workbench) (d : Directory) (file : String) (dryRun : Bool) :
    Except Failure Outcome := do
  let (c, summary) := b.fixAll (← readChain d file)
  finish b d file c dryRun (.object [("fixed", .number summary.fixed),
    ("reordered", .bool summary.reordered), ("remaining", reportJson file (b.validate c))])

/-- Lays the file out afresh, since lines that are there already are never moved. -/
def runReorder (b : Workbench) (d : Directory) (file : String) (dryRun : Bool) :
    Except Failure Outcome := do
  let c ← readChain d file
  finish b d file { b.order.reorder c with source := none } dryRun
    (.object [("reordered", .bool (!b.order.isOrdered c))])

/-- Sets the unit tests of sections, if there are any, and the flags of suites. -/
def editTests (sections suites : List String) (enabled : Bool) (c : Chain) :
    Except EditError (Chain × Nat) := do
  let (c, changed) ←
    if sections.isEmpty then .ok (c, 0) else Edit.unitTests c sections enabled
  return (suites.foldl (fun c suite => Edit.suite c suite enabled) c, changed)

def runSetTests (b : Workbench) (d : Directory) (file : String) (sections suites : List String)
    (enabled dryRun : Bool) : Except Failure Outcome :=
  if sections.isEmpty && suites.isEmpty then .error .noTarget
  else
    edited b d file dryRun (editTests sections suites enabled) fun changed =>
      .object [("changed", .number changed), ("suites", .strings suites)]

def runVersions (d : Directory) (file : String) : Except Failure Outcome := do
  let c ← readChain d file
  return ⟨d, print (versionsJson (Release.summary c)), true⟩

def runRebase (b : Workbench) (d : Directory) (file : String) (build : Nat) (dryRun : Bool) :
    Except Failure Outcome := do
  let (c, rewritten) := Release.rebase (← readChain d file) build
  finish b d file c dryRun
    (.object [("build", .number build), ("tagsRewritten", .number rewritten)])

def runGenerate (b : Workbench) (d : Directory) (request output : String) :
    Except Failure Outcome :=
  match d.readText request with
  | .error e => .error (.requestFile request e)
  | .ok text =>
    match ChainRequest.ofText text with
    | .error e => .error (.request e)
    | .ok r =>
      match r.chain b.order with
      | .error e => .error (.edit e)
      | .ok c =>
        match ChainFile.write b.writer d output c with
        | .error e => .error (.generating e)
        | .ok d =>
          let report := b.validate c
          .ok ⟨d, print (reportJson output report), !report.hasErrors⟩

def run (b : Workbench) (d : Directory) : Command → Except Failure Outcome
  | validate file => runValidate b d file
  | fix file dryRun => runFix b d file dryRun
  | reorder file dryRun => runReorder b d file dryRun
  | setBranch file sections branch dryRun =>
    edited b d file dryRun (fun c => Edit.branch c sections branch) changedJson
  | setMode file sections mode forDevelopers dryRun =>
    edited b d file dryRun
      (fun c => if forDevelopers then Edit.devMode c sections mode else Edit.mode c sections mode)
      changedJson
  | setTests file sections suites enabled dryRun =>
    runSetTests b d file sections suites enabled dryRun
  | versions file => runVersions d file
  | rebase file build dryRun => runRebase b d file build dryRun
  | generate request output => runGenerate b d request output

end BuildChain.Command

namespace BuildChain.Invocation

/-- Carries a command out with the rules it goes by; `stamp` is the time that fresh files show. -/
def run (stamp : String) (d : Directory) (i : Invocation) :
    Except Command.Failure Command.Outcome :=
  let source := match i.rules with
    | some path => RuleSource.file path
    | none => RuleSource.standard
  match source.read d with
  | .error e => .error (.rules e)
  | .ok rules => i.command.run (.ofRuleSet rules (some stamp)) d

end BuildChain.Invocation
