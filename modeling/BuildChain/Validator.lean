import BuildChain.Rule.Findings
import BuildChain.RuleSet.Basic

/-!
# Validation

A validator is a list of checks. Each check gives its issues, or a reason why it could not be
carried out; such a fault keeps no other check from being made.
-/

namespace BuildChain

/-- One thing to check about a chain. -/
structure Check where
  ruleId : String
  run : Chain → Except String (List Issue)

namespace Rule

def check (r : Rule) (cat : Catalog) : Check := ⟨r.id, r.issues cat⟩

end Rule

structure Validator where
  checks : List Check

namespace Validator

def empty : Validator := ⟨[]⟩

/-- The checks of the rules that are enabled. -/
def ofRuleSet (s : RuleSet) : Validator := ⟨s.enabled.map fun r => r.check s.catalog⟩

def standard : Validator := ofRuleSet .standard

def push (v : Validator) (check : Check) : Validator := ⟨v.checks ++ [check]⟩

def ids (v : Validator) : List String := v.checks.map Check.ruleId

def issuesOf (c : Chain) (check : Check) : List Issue :=
  match check.run c with
  | .ok issues => issues
  | .error _ => []

def fault? (c : Chain) (check : Check) : Option Fault :=
  match check.run c with
  | .ok _ => none
  | .error message => some ⟨check.ruleId, message⟩

def validate (v : Validator) (c : Chain) : Report :=
  { issues := v.checks.flatMap (issuesOf c), faults := v.checks.filterMap (fault? c) }

end Validator

end BuildChain
