import BuildChain.Report.Json
import BuildChain.RuleSet.Basic

/-!
# Reading rule documents

A rule document is a JSON array of rule entries, or an object with a catalog and the entries. The
document is read as a whole first; then each entry in turn becomes a rule, and the first entry that
is not fit to be one is the error of the document.
-/

namespace BuildChain

open Json (RecordField Record Decoder Draft)

/-! ## Settings -/

namespace Rule

def messageField {σ : Type} (names : List String) (store : Option String → σ → σ) :
    RecordField σ :=
  (RecordField.defaulted "message" (.orNull .text) store).orCalled names

def requiredPropertyRecord : Record RequiredProperty where
  title := "PropertyRequiredConfig"
  blank := { property := "" }
  fields := [
    .required "propertyName" .text fun v k => { k with property := v },
    .defaulted "errorMessage" (.orNull .text) fun v k => { k with message := v }]

def allowedValuesRecord : Record AllowedValues where
  title := "AllowedValuesConfig"
  blank := { property := "", allowed := [] }
  fields := [
    .required "propertyName" .text fun v k => { k with property := v },
    .required "allowedValues" (.list .text) fun v k => { k with allowed := v },
    .defaulted "caseSensitive" .boolean fun v k => { k with caseSensitive := v },
    .defaulted "errorMessage" (.orNull .text) fun v k => { k with message := v }]

def propertySetRecord : Record PropertySet where
  title := "PropertySetConfig"
  blank := { properties := [] }
  fields := [
    .required "properties" (.list .text) fun v k => { k with properties := v },
    .defaulted "errorMessage" (.orNull .text) fun v k => { k with message := v }]

def requiredSectionsRecord : Record RequiredSections where
  title := "RequiredSectionsConfig"
  blank := {}
  fields := [
    .defaulted "requiredSections" (.orNull (.list .text)) fun v k => { k with names := v },
    .defaulted "errorMessage" (.orNull .text) fun v k => { k with message := v }]

def buildNumbersRecord : Record BuildNumbers where
  title := "BuildNumberRangeConfig"
  blank := {}
  fields := [
    .defaulted "fields" (.list .text) fun v k => { k with fields := v },
    .defaulted "bands" (.orNull (.list Band.record.decode)) fun v k => { k with bands := v },
    .defaulted "errorMessage" (.orNull .text) fun v k => { k with errorMessage := v },
    .defaulted "warningMessage" (.orNull .text) fun v k => { k with warningMessage := v }]

def testSuitesRecord : Record TestSuites where
  title := "IntegrationTestsConfig"
  blank := {}
  fields := [
    .defaulted "knownSuites" (.orNull (.list .text)) fun v k => { k with known := v },
    .defaulted "unknownSuiteMessage" (.orNull .text) fun v k => { k with unknownMessage := v },
    .defaulted "invalidValueMessage" (.orNull .text) fun v k => { k with valueMessage := v }]

def wordingRecord : Record Wording where
  title := "MessageConfig"
  blank := {}
  fields := [messageField ["errorMessage", "warningMessage"] fun v k => { k with message := v }]

/-- A pattern that may be left out, and a message. -/
structure PatternText where
  pattern : Option String := none
  message : Option String := none

def patternTextRecord : Record PatternText where
  title := "RawPatternConfig"
  blank := {}
  fields := [
    .defaulted "pattern" (.orNull .text) fun v k => { k with pattern := v },
    messageField ["errorMessage", "warningMessage"] fun v k => { k with message := v }]

structure BranchPatternText where
  start : Option String := none
  pattern : Option String := none
  message : Option String := none

def branchPatternTextRecord : Record BranchPatternText where
  title := "RawFeatureBranchConfig"
  blank := {}
  fields := [
    .defaulted "prefix" (.orNull .text) fun v k => { k with start := v },
    .defaulted "pattern" (.orNull .text) fun v k => { k with pattern := v },
    messageField ["warningMessage"] fun v k => { k with message := v }]

def forbiddenBranchesRecord : Record ForbiddenBranches where
  title := "BranchPolicyConfig"
  blank := {}
  fields := [
    .defaulted "project" .text fun v k => { k with project := v },
    .defaulted "forbiddenBranches" (.list .text) fun v k => { k with branches := v },
    messageField ["errorMessage"] fun v k => { k with message := v }]

def preferredBranchRecord : Record PreferredBranch where
  title := "ProjectPolicyConfig"
  blank := {}
  fields := [
    .defaulted "project" .text fun v k => { k with project := v },
    messageField ["warningMessage"] fun v k => { k with message := v }]

/-! ## Kinds -/

namespace Kind

/-- Settings that are left out are the same as none. -/
def settings : Draft → Draft
  | .null => .object [] true
  | d => d.mapped

def read {α : Type} (record : Record α) (make : α → Kind) (d : Draft) : Except RuleFlaw Kind :=
  match record.decode d with
  | .ok k => .ok (make k)
  | .error e => .error (.badSettings e)

/-- The pattern of a text, or the standard one. -/
def patternOf (standard : NamePattern) : Option String → Except RuleFlaw NamePattern
  | none => .ok standard
  | some text =>
    match NamePattern.ofText? text with
    | some p => .ok p
    | none => .error (.badPattern text)

def readNaming (standard : NamePattern) (make : Naming → Kind) (d : Draft) :
    Except RuleFlaw Kind :=
  match patternTextRecord.decode d with
  | .ok k => (patternOf standard k.pattern).map fun p => make ⟨p, k.message⟩
  | .error e => .error (.badSettings e)

def readBranchNaming (d : Draft) : Except RuleFlaw Kind :=
  match branchPatternTextRecord.decode d with
  | .ok k =>
    (patternOf .featureBranch k.pattern).map fun p =>
      .featureBranch { start := k.start.getD "feature", pattern := p, message := k.message }
  | .error e => .error (.badSettings e)

/-- How the settings of each kind are read. -/
def readers : List (String × (Draft → Except RuleFlaw Kind)) :=
  [("PropertyRequired", read requiredPropertyRecord .requiredProperty),
    ("PropertyValueValidation", read allowedValuesRecord .allowedValues),
    ("MutuallyExclusive", read propertySetRecord .exclusive),
    ("RequiredOneOf", read propertySetRecord .oneOf),
    ("RequiredSections", read requiredSectionsRecord .requiredSections),
    ("BuildNumberRange", read buildNumbersRecord .buildNumbers),
    ("IntegrationTests", read testSuitesRecord .testSuites),
    ("GlobalDevVersionRequired", read wordingRecord .devVersion),
    ("GlobalVersionWhenBinary", read wordingRecord .version),
    ("ForkFormat", readNaming .fork .fork),
    ("FeatureBranchNaming", readBranchNaming),
    ("ProjectNaming", readNaming .projectName .projectName),
    ("ContentStageBranch", read forbiddenBranchesRecord .forbiddenBranches),
    ("TestsPreferBranch", read preferredBranchRecord .preferredBranch),
    ("DevModeWithoutMode", read wordingRecord .devModeAlone)]

def isVersionKey (field : String) : Bool :=
  field = GlobalKey.version || field = GlobalKey.devVersion

/-- What is wrong with settings that could be read. -/
def flaw? : Kind → Option RuleFlaw
  | requiredProperty k => if Text.isBlank k.property then some .emptyProperty else none
  | allowedValues k =>
    if Text.isBlank k.property then some .emptyProperty
    else if k.allowed.isEmpty then some .noAllowedValues
    else none
  | exclusive k => if k.properties.length < 2 then some .fewProperties else none
  | oneOf k => if k.properties.length < 2 then some .fewProperties else none
  | buildNumbers k =>
    match k.fields.find? fun f => !isVersionKey f with
    | some field => some (.foreignField field)
    | none => (Band.firstEmpty? (k.bands.getD [])).map .emptyBand
  | _ => none

def ofSettings (name : String) (d : Draft) : Except RuleFlaw Kind :=
  match readers.lookup name with
  | none => .error (.unknownKind name)
  | some reader =>
    match reader (settings d) with
    | .error flaw => .error flaw
    | .ok kind =>
      match kind.flaw? with
      | some flaw => .error flaw
      | none => .ok kind

end Kind

/-! ## Entries -/

/-- A rule as a document spells it out. -/
structure Entry where
  id : String := ""
  name : Option String := none
  description : String := ""
  enabled : Bool := true
  severity : Severity := .error
  kindName : String := ""
  settings : Draft := .null

namespace Entry

def record : Record Entry where
  title := "RawDescriptor"
  blank := {}
  fields := [
    .required "ruleId" .text fun v e => { e with id := v },
    .defaulted "name" (.orNull .text) fun v e => { e with name := v },
    .defaulted "description" .text fun v e => { e with description := v },
    .defaulted "isEnabled" .boolean fun v e => { e with enabled := v },
    .required "severity" Severity.decoder fun v e => { e with severity := v },
    .required "ruleType" .text fun v e => { e with kindName := v },
    .defaulted "configuration" .raw fun v e => { e with settings := v }]

/-- A rule without a name goes by its identifier. -/
def rule (e : Entry) : Except RuleSetError Rule :=
  if Text.isBlank e.id then .error (.invalidRule "<empty>" .emptyId)
  else
    match Kind.ofSettings e.kindName e.settings with
    | .error flaw => .error (.invalidRule e.id flaw)
    | .ok kind => .ok
        { id := e.id, name := e.name.getD e.id, description := e.description,
          enabled := e.enabled, severity := e.severity, kind := kind }

end Entry

end Rule

/-! ## Documents -/

/-- The catalog and the rule entries of a document. -/
structure RuleTable where
  catalog : Catalog := {}
  entries : List Rule.Entry := []

namespace RuleTable

def record : Record RuleTable where
  title := "RawDocument"
  blank := {}
  fields := [
    .defaulted "catalog" (.orNull Catalog.record.decode)
      fun v t => { t with catalog := v.getD {} },
    .required "rules" (.list Rule.Entry.record.decode) fun v t => { t with entries := v }]

def decode : Decoder RuleTable
  | .object members closed => record.ofMembers members closed
  | d => (Decoder.list Rule.Entry.record.decode d).map fun entries => { entries := entries }

end RuleTable

namespace RuleSet

/-- How deep the arrays and objects of a document can be nested. -/
def maxDepth : Nat := 127

def ofText (text : String) : Except RuleSetError RuleSet :=
  let r := Json.read text
  if !r.draft.sound maxDepth then .error .malformed
  else
    match RuleTable.decode r.draft with
    | .error _ => .error .noDocument
    | .ok table =>
      if !r.complete then .error .malformed
      else
        match table.entries.mapM Rule.Entry.rule with
        | .error e => .error e
        | .ok rules => ofRules table.catalog rules

end RuleSet

end BuildChain
