import BuildChain.Line
import BuildChain.Message
import BuildChain.Rule.Basic
import BuildChain.Text.Numeral

/-!
# What rules find

`Rule.issues` gives the issues that a rule finds in a chain, in the order of the sections, the
fields or the flags. It looks at the chain and the catalog only. One kind cannot always be checked:
a set of which one property has to be there must not be empty.
-/

namespace BuildChain.Rule

/-! ## Raising issues -/

/-- An issue of the severity of the rule. -/
def issue (r : Rule) (message : String) : Issue :=
  { ruleId := r.id, message := message, severity := r.severity }

/-- An issue about a section. -/
def sectionIssue (r : Rule) (s : Section) (message : String) : Issue :=
  { r.issue message with sectionName := some s.name }

def list (words : List String) : String := String.intercalate ", " words

/-! ## Properties -/

def requiredPropertyIssues (r : Rule) (k : RequiredProperty) (c : Chain) : List Issue :=
  (c.sections.filter fun s => !s.has k.property).map fun s =>
    { r.sectionIssue s (Message.render k.message
        "Section '\x7bSectionName\x7d' is missing required property '\x7bPropertyName\x7d'"
        { name := some s.name, property := some k.property }) with
      target := some k.property
      fixable := true
      suggestion := some ("Add " ++ Route.propertyKey s.name k.property ++ "=<value>") }

def allowedValuesIssue? (r : Rule) (k : AllowedValues) (s : Section) : Option Issue :=
  match s.nonBlank? k.property with
  | none => none
  | some value =>
    if k.allows value then none
    else some
      { r.sectionIssue s (Message.render k.message
          ("Section '\x7bSectionName\x7d' has invalid \x7bPropertyName\x7d " ++
            "'\x7bPropertyValue\x7d' (allowed: \x7bAllowedValues\x7d)")
          { name := some s.name, property := some k.property, value := some value,
            allowed := some (list k.allowed) }) with
        target := some k.property
        fixable := true
        suggestion := some ("Use one of: " ++ list k.allowed) }

def exclusiveIssue? (r : Rule) (k : PropertySet) (s : Section) : Option Issue :=
  match k.presentIn s with
  | first :: second :: more =>
    let present := first :: second :: more
    some
      { r.sectionIssue s (Message.render k.message
          "Section '\x7bSectionName\x7d' sets mutually exclusive properties: \x7bPropertyName\x7d"
          { name := some s.name, property := some (list present) }) with
        target := some (String.intercalate "," present)
        fixable := true
        suggestion := some ("Keep only " ++ Route.propertyKey s.name first) }
  | _ => none

def oneOfIssues (r : Rule) (k : PropertySet) (first : String) (c : Chain) : List Issue :=
  (c.sections.filter fun s => (k.presentIn s).isEmpty).map fun s =>
    { r.sectionIssue s (Message.render k.message
        "Section '\x7bSectionName\x7d' must set one of: \x7bPropertyName\x7d"
        { name := some s.name, property := some (list k.properties) }) with
      target := some first
      fixable := true
      suggestion := some ("Add " ++ Route.propertyKey s.name first ++ "=<value>") }

/-! ## Sections -/

def requiredSectionsIssues (r : Rule) (k : RequiredSections) (names : List String) (c : Chain) :
    List Issue :=
  (names.filter fun name => !c.hasSection name).map fun name =>
    { r.issue (Message.render k.message "Required project '\x7bSectionName\x7d' is missing"
        { name := some name }) with
      sectionName := some name
      fixable := true
      suggestion := some ("Add a '" ++ name ++ "' section") }

def projectNameIssue? (r : Rule) (k : Naming) (s : Section) : Option Issue :=
  if k.pattern.fits s.name then none
  else some (r.sectionIssue s (Message.render k.message
    "Project name '\x7bSectionName\x7d' should be lowercase letters, digits and underscores"
    { name := some s.name }))

/-! ## Versions -/

/-- A value that is no build number is an error whatever the severity of the rule, and one in no
band a warning. -/
def buildNumberIssue? (r : Rule) (k : BuildNumbers) (bands : List Band) (c : Chain)
    (field : String) : Option Issue :=
  match c.globals.versionAt? field with
  | none => none
  | some raw =>
    let value := Text.trim raw
    let subject : Subject :=
      { property := some field, value := some value, allowed := some (list (bands.map Band.text)) }
    match Text.readNumber value with
    | none => some
        { r.issue (Message.render k.errorMessage
            "Global '\x7bPropertyName\x7d' value '\x7bPropertyValue\x7d' is not a build number"
            subject) with
          severity := .error
          target := some field
          fixable := true
          suggestion := some ("Set " ++ field ++ " to a numeric build number") }
    | some n =>
      if bands.any fun b => b.contains n then none
      else some
        { r.issue (Message.render k.warningMessage
            ("Global '\x7bPropertyName\x7d' value '\x7bPropertyValue\x7d' is outside every " ++
              "build band (\x7bAllowedValues\x7d)")
            subject) with
          severity := .warning
          target := some field }

/-- What is wrong with the version of a chain with a binary project; a value that is no build number
is left to another kind. -/
def versionComplaint? (k : Wording) (cat : Catalog) (c : Chain) : Option String :=
  match c.globals.versionAt? GlobalKey.version with
  | none => some (Message.render k.message
      "Global binary version must be set when a project uses binary mode"
      { property := some GlobalKey.version })
  | some raw =>
    match Text.readNumber (Text.trim raw) with
    | none => none
    | some n =>
      if cat.bands.any fun b => b.contains n then none
      else some (Message.render none
        "Global binary version '\x7bPropertyValue\x7d' is not a usable build for binary projects"
        { property := some GlobalKey.version, value := some (Text.trim raw) })

def isBinary (s : Section) : Bool := s.get? Property.mode = some BuildMode.binary.text

def versionIssue? (r : Rule) (k : Wording) (cat : Catalog) (c : Chain) : Option Issue :=
  if c.anyMode BuildMode.binary.text then
    (versionComplaint? k cat c).map fun message =>
      { r.issue message with
        target := some GlobalKey.version
        fixable := true
        suggestion := some ("Set " ++ GlobalKey.version ++ " (binary projects: " ++
          list ((c.sections.filter isBinary).map Section.name) ++ ")") }
  else none

def devVersionIssue? (r : Rule) (k : Wording) (c : Chain) : Option Issue :=
  if c.anyDevMode BuildMode.binary.text && (c.globals.versionAt? GlobalKey.devVersion).isNone then
    some
      { r.issue (Message.render k.message
          "Global dev binary version must be set when a project uses binary dev mode"
          { property := some GlobalKey.devVersion }) with
        target := some GlobalKey.devVersion
        fixable := true
        suggestion := some ("Set " ++ GlobalKey.devVersion) }
  else none

/-! ## Integration tests -/

/-- A suite that nobody knows is a warning whatever the severity of the rule. -/
def unknownSuiteIssue? (r : Rule) (k : TestSuites) (known : List String) (suite : String) :
    Option Issue :=
  if known.any fun s => Text.sameName s suite then none
  else some
    { r.issue (Message.render k.unknownMessage
        "Integration test suite '\x7bPropertyName\x7d' is not known (known: \x7bAllowedValues\x7d)"
        { property := some suite, allowed := some (list known) }) with
      severity := .warning
      target := some suite }

/-- A flag that is no boolean is an error whatever the severity of the rule. -/
def flagValueIssue (r : Rule) (k : TestSuites) (suite value : String) : Issue :=
  { r.issue (Message.render k.valueMessage
      "Integration test suite '\x7bPropertyName\x7d' has non-boolean value '\x7bPropertyValue\x7d'"
      { property := some suite, value := some value }) with
    severity := .error
    target := some suite
    fixable := true
    suggestion := some ("Set " ++ Route.flagKey suite ++ "=true or false") }

def testSuitesIssues (r : Rule) (k : TestSuites) (known : List String) (c : Chain) : List Issue :=
  c.flags.keys.filterMap (r.unknownSuiteIssue? k known) ++
    c.rawFlags.toList.flatMap fun e =>
      (r.unknownSuiteIssue? k known e.1).toList ++ [r.flagValueIssue k e.1 e.2]

/-! ## Policies -/

def forkIssue? (r : Rule) (k : Naming) (s : Section) : Option Issue :=
  match s.nonBlank? Property.fork with
  | none => none
  | some raw =>
    let fork := Text.trim raw
    if k.pattern.fits fork then none
    else some
      { r.sectionIssue s (Message.render k.message
          "Section '\x7bSectionName\x7d' fork '\x7bPropertyValue\x7d' is not in owner/repo form"
          { name := some s.name, property := some Property.fork, value := some fork }) with
        target := some Property.fork
        fixable := true
        suggestion := some ("Use " ++ Route.propertyKey s.name Property.fork ++
          "=<owner>/<repo> or remove it") }

def devModeAloneIssue? (r : Rule) (k : Wording) (s : Section) : Option Issue :=
  match s.nonBlank? Property.devMode with
  | none => none
  | some value =>
    if s.has Property.mode then none
    else some
      { r.sectionIssue s (Message.render k.message
          "Section '\x7bSectionName\x7d' sets mode.devs '\x7bPropertyValue\x7d' without a mode"
          { name := some s.name, property := some Property.devMode, value := some value }) with
        target := some Property.mode }

def forbiddenBranchIssue? (r : Rule) (k : ForbiddenBranches) (s : Section) : Option Issue :=
  match s.nonBlank? Property.branch with
  | none => none
  | some raw =>
    let branch := Text.trim raw
    if s.isNamed k.project && k.branches.any fun b => Text.sameName b branch then some
      { r.sectionIssue s (Message.render k.message
          "Section '\x7bSectionName\x7d' may not build from branch '\x7bPropertyValue\x7d'"
          { name := some s.name, property := some Property.branch, value := some branch }) with
        target := some Property.branch }
    else none

def preferredBranchIssue? (r : Rule) (k : PreferredBranch) (s : Section) : Option Issue :=
  match s.nonBlank? Property.tag with
  | none => none
  | some tag =>
    if s.isNamed k.project && !s.has Property.branch then some
      { r.sectionIssue s (Message.render k.message
          "Section '\x7bSectionName\x7d' uses tag '\x7bPropertyValue\x7d'; a branch is preferred"
          { name := some s.name, property := some Property.tag, value := some tag }) with
        target := some Property.tag
        suggestion := some ("Replace " ++ Route.propertyKey s.name Property.tag ++ " with " ++
          Route.propertyKey s.name Property.branch) }
    else none

def featureBranchIssue? (r : Rule) (k : BranchNaming) (s : Section) : Option Issue :=
  match s.nonBlank? Property.branch with
  | none => none
  | some raw =>
    let branch := Text.trim raw
    if k.concerns branch && !k.pattern.fits branch then some
      { r.sectionIssue s (Message.render k.message
          ("Section '\x7bSectionName\x7d' branch '\x7bPropertyValue\x7d' does not follow " ++
            "feature/<name>")
          { name := some s.name, property := some Property.branch, value := some branch }) with
        target := some Property.branch }
    else none

/-! ## All kinds -/

/-- The issues that the rule finds, or why it cannot be checked. -/
def issues (r : Rule) (cat : Catalog) (c : Chain) : Except String (List Issue) :=
  match r.kind with
  | .requiredProperty k => .ok (r.requiredPropertyIssues k c)
  | .allowedValues k => .ok (c.sections.filterMap (r.allowedValuesIssue? k))
  | .exclusive k => .ok (c.sections.filterMap (r.exclusiveIssue? k))
  | .oneOf k =>
    match k.properties with
    | [] => .error "no properties configured"
    | first :: _ => .ok (r.oneOfIssues k first c)
  | .requiredSections k => .ok (r.requiredSectionsIssues k (k.namesIn cat) c)
  | .buildNumbers k => .ok (k.fields.filterMap (r.buildNumberIssue? k (k.bandsIn cat) c))
  | .testSuites k => .ok (r.testSuitesIssues k (k.knownIn cat) c)
  | .devVersion k => .ok (r.devVersionIssue? k c).toList
  | .version k => .ok (r.versionIssue? k cat c).toList
  | .fork k => .ok (c.sections.filterMap (r.forkIssue? k))
  | .featureBranch k => .ok (c.sections.filterMap (r.featureBranchIssue? k))
  | .projectName k => .ok (c.sections.filterMap (r.projectNameIssue? k))
  | .forbiddenBranches k => .ok (c.sections.filterMap (r.forbiddenBranchIssue? k))
  | .preferredBranch k => .ok (c.sections.filterMap (r.preferredBranchIssue? k))
  | .devModeAlone k => .ok (c.sections.filterMap (r.devModeAloneIssue? k))

end BuildChain.Rule
