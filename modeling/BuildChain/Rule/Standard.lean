import BuildChain.Rule.Basic

/-!
# The standard rules

Sixteen rules are in force when no rule document says otherwise. They are checked in this order.
-/

namespace BuildChain.Rule

/-- The identifiers of the standard rules. -/
inductive StandardId
  | requiredProjects
  | requiredMode
  | validMode
  | validDevMode
  | branchTagExclusive
  | branchOrTagRequired
  | forkFormat
  | devModeWithoutMode
  | contentStageBranch
  | testsPreferBranch
  | featureBranchNaming
  | projectNaming
  | globalVersionWhenBinary
  | buildNumberRange
  | integrationTests
  | globalDevVersionRequired
deriving DecidableEq

namespace StandardId

def text : StandardId → String
  | requiredProjects => "RequiredProjects"
  | requiredMode => "RequiredMode"
  | validMode => "ValidMode"
  | validDevMode => "ValidDevMode"
  | branchTagExclusive => "BranchTagExclusive"
  | branchOrTagRequired => "BranchOrTagRequired"
  | forkFormat => "ForkFormat"
  | devModeWithoutMode => "DevModeWithoutMode"
  | contentStageBranch => "ContentStageBranch"
  | testsPreferBranch => "TestsPreferBranch"
  | featureBranchNaming => "FeatureBranchNaming"
  | projectNaming => "ProjectNaming"
  | globalVersionWhenBinary => "GlobalVersionWhenBinary"
  | buildNumberRange => "BuildNumberRange"
  | integrationTests => "IntegrationTests"
  | globalDevVersionRequired => "GlobalDevVersionRequired"

end StandardId

def standardRule (id : StandardId) (name : String) (severity : Severity) (kind : Kind) : Rule :=
  { id := id.text, name := name, severity := severity, kind := kind }

def modeValues : List String :=
  [BuildMode.source.text, BuildMode.binary.text, BuildMode.ignored.text]

def devModeValues : List String :=
  [BuildMode.binary.text, BuildMode.ignored.text, BuildMode.source.text]

def standard : List Rule :=
  [{ standardRule .requiredProjects "Required projects" .error (.requiredSections {}) with
      description := "Every canonical project has a section" },
    standardRule .requiredMode "Build mode required" .error
      (.requiredProperty { property := Property.mode }),
    standardRule .validMode "Valid build mode" .error
      (.allowedValues { property := Property.mode, allowed := modeValues }),
    standardRule .validDevMode "Valid developer build mode" .error
      (.allowedValues { property := Property.devMode, allowed := devModeValues }),
    standardRule .branchTagExclusive "Branch and tag are exclusive" .error
      (.exclusive { properties := [Property.branch, Property.tag] }),
    standardRule .branchOrTagRequired "Branch or tag required" .error
      (.oneOf { properties := [Property.branch, Property.tag] }),
    { standardRule .forkFormat "Fork format" .error (.fork { pattern := .fork }) with
      description := "'fork' must have the form owner/repo" },
    standardRule .devModeWithoutMode "Dev mode without base mode" .warning (.devModeAlone {}),
    standardRule .contentStageBranch "Content may not build from stage" .error
      (.forbiddenBranches {}),
    standardRule .testsPreferBranch "Tests should use a branch" .warning (.preferredBranch {}),
    standardRule .featureBranchNaming "Feature branch naming" .warning (.featureBranch {}),
    standardRule .projectNaming "Project naming" .warning
      (.projectName { pattern := .projectName }),
    standardRule .globalVersionWhenBinary "Global version required for binary mode" .error
      (.version {}),
    standardRule .buildNumberRange "Build number range" .error (.buildNumbers {}),
    standardRule .integrationTests "Integration test suites" .warning (.testSuites {}),
    standardRule .globalDevVersionRequired "Global dev version required for binary dev mode"
      .warning (.devVersion {})]

end BuildChain.Rule
