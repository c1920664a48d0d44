import BuildChain.Catalog
import BuildChain.Pattern.Basic
import BuildChain.Report.Basic

/-!
# Rules

A rule checks one thing about a chain. What it checks is its kind; each of the fifteen kinds has
settings of its own. A message that is not set is worded by the kind itself, and a table that is not
set is looked up in the catalog.
-/

namespace BuildChain

namespace Rule

/-! ## Settings of the kinds -/

structure RequiredProperty where
  property : String
  message : Option String := none
deriving DecidableEq

structure AllowedValues where
  property : String
  allowed : List String
  caseSensitive : Bool := true
  message : Option String := none
deriving DecidableEq

namespace AllowedValues

def allows (k : AllowedValues) (value : String) : Bool :=
  if k.caseSensitive then k.allowed.contains value
  else k.allowed.any fun v => Text.sameName v value

end AllowedValues

structure PropertySet where
  properties : List String
  message : Option String := none
deriving DecidableEq

namespace PropertySet

/-- The properties of the set that a section has. -/
def presentIn (k : PropertySet) (s : Section) : List String := k.properties.filter s.has

end PropertySet

structure RequiredSections where
  names : Option (List String) := none
  message : Option String := none
deriving DecidableEq

namespace RequiredSections

def namesIn (k : RequiredSections) (cat : Catalog) : List String := k.names.getD cat.order.names

end RequiredSections

structure BuildNumbers where
  /-- The global keys whose values are checked. -/
  fields : List String := [GlobalKey.version, GlobalKey.devVersion]
  bands : Option (List Band) := none
  /-- For a value that is no build number. -/
  errorMessage : Option String := none
  /-- For a build number in no band. -/
  warningMessage : Option String := none
deriving DecidableEq

namespace BuildNumbers

def bandsIn (k : BuildNumbers) (cat : Catalog) : List Band := k.bands.getD cat.bands

end BuildNumbers

structure TestSuites where
  known : Option (List String) := none
  unknownMessage : Option String := none
  valueMessage : Option String := none
deriving DecidableEq

namespace TestSuites

def knownIn (k : TestSuites) (cat : Catalog) : List String := k.known.getD cat.suites

end TestSuites

structure Wording where
  message : Option String := none
deriving DecidableEq

structure Naming where
  pattern : NamePattern
  message : Option String := none
deriving DecidableEq

structure BranchNaming where
  /-- Only branches that start like this, whatever the case, are checked. -/
  start : String := "feature"
  pattern : NamePattern := .featureBranch
  message : Option String := none
deriving DecidableEq

namespace BranchNaming

def concerns (k : BranchNaming) (branch : String) : Bool :=
  (Text.fold k.start).isPrefixOf (Text.fold branch)

end BranchNaming

structure ForbiddenBranches where
  project : String := "content"
  branches : List String := ["stage"]
  message : Option String := none
deriving DecidableEq

structure PreferredBranch where
  project : String := "tests"
  message : Option String := none
deriving DecidableEq

/-! ## Kinds -/

inductive Kind
  /-- Every section has a property. -/
  | requiredProperty (k : RequiredProperty)
  /-- A property that is there has one of some values. -/
  | allowedValues (k : AllowedValues)
  /-- Every section has at most one property of a set. -/
  | exclusive (k : PropertySet)
  /-- Every section has at least one property of a set. -/
  | oneOf (k : PropertySet)
  /-- Every name of a list has a section. -/
  | requiredSections (k : RequiredSections)
  /-- The versions are build numbers of some band. -/
  | buildNumbers (k : BuildNumbers)
  /-- The flags are booleans and belong to known suites. -/
  | testSuites (k : TestSuites)
  /-- A binary developer mode needs a developer version. -/
  | devVersion (k : Wording)
  /-- A binary mode needs a usable version. -/
  | version (k : Wording)
  /-- A fork fits a pattern. -/
  | fork (k : Naming)
  /-- A feature branch fits a pattern. -/
  | featureBranch (k : BranchNaming)
  /-- The name of a section fits a pattern. -/
  | projectName (k : Naming)
  /-- A project is not built from certain branches. -/
  | forbiddenBranches (k : ForbiddenBranches)
  /-- A project has a branch rather than a tag. -/
  | preferredBranch (k : PreferredBranch)
  /-- A developer mode needs a mode. -/
  | devModeAlone (k : Wording)
deriving DecidableEq

namespace Kind

/-- The name under which a rule document asks for the kind. -/
def name : Kind → String
  | requiredProperty _ => "PropertyRequired"
  | allowedValues _ => "PropertyValueValidation"
  | exclusive _ => "MutuallyExclusive"
  | oneOf _ => "RequiredOneOf"
  | requiredSections _ => "RequiredSections"
  | buildNumbers _ => "BuildNumberRange"
  | testSuites _ => "IntegrationTests"
  | devVersion _ => "GlobalDevVersionRequired"
  | version _ => "GlobalVersionWhenBinary"
  | fork _ => "ForkFormat"
  | featureBranch _ => "FeatureBranchNaming"
  | projectName _ => "ProjectNaming"
  | forbiddenBranches _ => "ContentStageBranch"
  | preferredBranch _ => "TestsPreferBranch"
  | devModeAlone _ => "DevModeWithoutMode"

def isRequiredSections : Kind → Bool
  | requiredSections _ => true
  | _ => false

end Kind

end Rule

/-! ## Rules -/

structure Rule where
  id : String
  name : String
  description : String := ""
  enabled : Bool := true
  /-- The severity of what the rule finds, unless its kind tells. -/
  severity : Severity
  kind : Rule.Kind
deriving DecidableEq

end BuildChain
