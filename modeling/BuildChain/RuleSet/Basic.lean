import BuildChain.Json.Shape
import BuildChain.Rule.Basic
import BuildChain.Rule.Standard

/-!
# Rule sets

A rule set is a catalog and a list of rules in the order in which they are checked. Identifiers are
distinct and bands hold at least one number in every set that `RuleSet.ofRules` puts together.
-/

namespace BuildChain

/-! ## What can be wrong with a rule -/

inductive RuleFlaw
  | emptyId
  | unknownKind (name : String)
  | badSettings (cause : Json.ShapeError)
  | emptyProperty
  | noAllowedValues
  | fewProperties
  /-- A field that is not the key of a global version. -/
  | foreignField (field : String)
  | emptyBand (band : Band)
  | badPattern (text : String)
deriving DecidableEq

namespace RuleFlaw

def apostrophes (s : String) : String := "'" ++ s ++ "'"

def message : RuleFlaw → String
  | emptyId => "ruleId is empty"
  | unknownKind name => "unknown ruleType " ++ apostrophes name
  | badSettings cause => "bad configuration: " ++ cause.message
  | emptyProperty => "propertyName is empty"
  | noAllowedValues => "allowedValues is empty"
  | fewProperties => "properties needs at least two entries"
  | foreignField field => apostrophes field ++ " is not a global version field"
  | emptyBand b =>
    "band " ++ apostrophes b.name ++ " has min " ++ toString b.min ++ " above max " ++
      toString b.max
  | badPattern text => "invalid pattern " ++ apostrophes text

end RuleFlaw

inductive RuleSetError
  /-- The text is no JSON. -/
  | malformed
  /-- The JSON is no rule document. -/
  | noDocument
  | invalidRule (id : String) (flaw : RuleFlaw)
  | duplicateId (id : String)
deriving DecidableEq

namespace RuleSetError

/-- The words for JSON that is no rule document. -/
def noDocumentMessage : String := "data did not match any variant of untagged enum RawDocument"

def message : RuleSetError → String
  | malformed => "invalid rule configuration: malformed"
  | noDocument => "invalid rule configuration: " ++ noDocumentMessage
  | invalidRule id flaw =>
    "invalid rule " ++ RuleFlaw.apostrophes id ++ ": " ++ flaw.message
  | duplicateId id => "duplicate rule id: " ++ id

end RuleSetError

/-! ## Rule sets -/

structure RuleSet where
  catalog : Catalog := {}
  rules : List Rule
deriving DecidableEq

namespace RuleSet

def standard : RuleSet := { rules := Rule.standard }

def ids (s : RuleSet) : List String := s.rules.map Rule.id

/-- The first identifier that an earlier rule has as well. -/
def firstRepeated? (seen : List String) : List String → Option String
  | [] => none
  | id :: ids => if seen.contains id then some id else firstRepeated? (id :: seen) ids

/-- Puts a rule set together from a catalog and rules. -/
def ofRules (catalog : Catalog) (rules : List Rule) : Except RuleSetError RuleSet :=
  match firstRepeated? [] (rules.map Rule.id) with
  | some id => .error (.duplicateId id)
  | none =>
    match Band.firstEmpty? catalog.bands with
    | some b => .error (.invalidRule "catalog" (.emptyBand b))
    | none => .ok ⟨catalog, rules⟩

def enabled (s : RuleSet) : List Rule := s.rules.filter Rule.enabled

def get? (s : RuleSet) (id : String) : Option Rule := s.rules.find? fun r => r.id = id

def contains (s : RuleSet) (id : String) : Bool := s.ids.contains id

/-- Changes the rule of an identifier, if there is one. -/
def modify (s : RuleSet) (id : String) (f : Rule → Rule) : RuleSet :=
  { s with rules := Chain.modifyFirst (fun r => decide (r.id = id)) f s.rules }

def setEnabled (s : RuleSet) (id : String) (enabled : Bool) : RuleSet :=
  s.modify id fun r => { r with enabled := enabled }

def setSeverity (s : RuleSet) (id : String) (severity : Severity) : RuleSet :=
  s.modify id fun r => { r with severity := severity }

end RuleSet

end BuildChain
