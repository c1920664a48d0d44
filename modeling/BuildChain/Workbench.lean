import BuildChain.Repair.Fixer
import BuildChain.Writer

/-!
# Workbenches

A workbench holds everything that a rule set is used for: the catalog, the validator, the fixer and
the writer, all with the canonical order of the catalog.
-/

namespace BuildChain

structure Workbench where
  catalog : Catalog
  validator : Validator
  fixer : Fixer
  writer : Writer

namespace Workbench

/-- The workbench of a rule set; fresh files show the creation time, if one is given. -/
def ofRuleSet (s : RuleSet) (stamp : Option String) : Workbench where
  catalog := s.catalog
  validator := .ofRuleSet s
  fixer := .ofRuleSet s
  writer := { order := s.catalog.order, stamp := stamp }

def order (b : Workbench) : Order := b.catalog.order

def validate (b : Workbench) (c : Chain) : Report := b.validator.validate c

def fixAll (b : Workbench) (c : Chain) : Chain × Fixer.Summary := b.fixer.fixAll b.validator c

def applyFixes (b : Workbench) (c : Chain) (issues : List Issue) : Chain × Nat :=
  b.fixer.applyFixes c issues

def render (b : Workbench) (c : Chain) : String := b.writer.render c

end Workbench

end BuildChain
