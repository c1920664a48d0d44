import BuildChain.Repair.Basic
import BuildChain.Validator

/-!
# Fixing a chain

A fixer has one repair a rule. Issues about missing sections have no repair: if there is one among
the issues, every section of the canonical order and every other one asked for is added, and the
sections are put into order. Fixing everything validates and repairs again until nothing is left to
repair, since a repair can bring up another issue.
-/

namespace BuildChain

structure Fixer where
  catalog : Catalog
  repairs : OrderedMap Repair
  /-- The rules whose issues ask for a section. -/
  sectionRules : List String

namespace Fixer

open Rule (StandardId)

def ofCatalog (cat : Catalog) : Fixer :=
  ⟨cat, Repair.defaults cat, [StandardId.requiredProjects.text]⟩

/-- Every rule of the set that requires sections asks for them. -/
def ofRuleSet (s : RuleSet) : Fixer :=
  { ofCatalog s.catalog with
    sectionRules :=
      StandardId.requiredProjects.text ::
        (s.rules.filter fun r => r.kind.isRequiredSections).map Rule.id }

/-! ## Missing sections -/

/-- Projects that developers do not get as binaries. -/
def developerless : List String := ["tests", "designer", "deployment"]

/-- Projects without unit tests. -/
def testless : List String := ["tests", "content", "deployment"]

def among (names : List String) (name : String) : Bool := names.any fun n => Text.sameName n name

/-- The section that is added for a project that has none. -/
def defaultSection (cat : Catalog) (name : String) : Section :=
  let devMode := if among developerless name then BuildMode.ignored else BuildMode.binary
  ((({ name := name : Section }.set Property.mode BuildMode.source.text).set Property.devMode
    devMode.text).set Property.branch cat.defaultBranch).setTestsUnit (!among testless name)

/-- Adds the sections of the names that have none, one after the other, and counts them. -/
def addMissing (cat : Catalog) (c : Chain) (names : List String) : Chain × Nat :=
  names.foldl (fun acc name =>
    if acc.1.hasSection name then acc
    else (acc.1.push (defaultSection cat name), acc.2 + 1)) (c, 0)

/-- Adds the canonical sections and the named ones, then puts all into order. -/
def complete (f : Fixer) (c : Chain) (named : List String) : Chain × Nat :=
  let (c', added) := addMissing f.catalog c (f.catalog.order.missing c ++ named)
  (f.catalog.order.reorder c', added)

/-! ## Repairs -/

/-- Whether an issue asks for a section. -/
def asksForSection (f : Fixer) (i : Issue) : Bool := f.sectionRules.contains i.ruleId

/-- The chain after the repair of one issue, if there is something to repair. -/
def repair? (f : Fixer) (c : Chain) (i : Issue) : Option Chain :=
  match f.repairs.get? i.ruleId with
  | none => none
  | some r =>
    match r.apply c i with
    | .ok c' => c'
    | .error _ => none

/-- Repairs one issue after the other and counts the repairs that changed something. -/
def repairAll (f : Fixer) (c : Chain) (issues : List Issue) : Chain × Nat :=
  issues.foldl (fun acc i =>
    match f.repair? acc.1 i with
    | some c' => (c', acc.2 + 1)
    | none => acc) (c, 0)

/-- Deals with the issues that can be fixed; the count takes every added section for one fix. -/
def applyFixes (f : Fixer) (c : Chain) (issues : List Issue) : Chain × Nat :=
  let fixable := issues.filter Issue.fixable
  let (c', fixed) := f.repairAll c (fixable.filter fun i => !f.asksForSection i)
  match (fixable.filter f.asksForSection).filterMap Issue.sectionName with
  | [] => (c', fixed)
  | named =>
    let (c'', added) := f.complete c' named
    (c'', fixed + added)

/-! ## Fixing everything -/

/-- How often a chain is validated and repaired at most. -/
def maxPasses : Nat := 4

/-- Validates and repairs until nothing is repaired or the passes are used up. -/
def passes (f : Fixer) (v : Validator) : Nat → Chain → Chain × Nat
  | 0, c => (c, 0)
  | n + 1, c =>
    let (c', fixed) := f.applyFixes c (v.validate c).fixableErrors
    if fixed = 0 then (c', 0)
    else
      let (c'', more) := passes f v n c'
      (c'', fixed + more)

structure Summary where
  fixed : Nat
  /-- Whether the final arrangement moved a section. -/
  reordered : Bool
deriving DecidableEq

def fixAll (f : Fixer) (v : Validator) (c : Chain) : Chain × Summary :=
  let (c', fixed) := f.passes v maxPasses c
  (f.catalog.order.reorder c', ⟨fixed, !f.catalog.order.isOrdered c'⟩)

end Fixer

end BuildChain
