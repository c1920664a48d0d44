import BuildChain.Json.Basic
import BuildChain.Json.Shape
import BuildChain.Report.Basic

/-!
# Reports as JSON

The members stand in the order of the fields. An absent field of an issue is written as `null`, and
the faults of a report are left out when there are none.
-/

namespace BuildChain

open Json (Record Decoder)

/-! ## Severities -/

namespace Severity

def label : Severity → String
  | error => "Error"
  | warning => "Warning"

def json (s : Severity) : Json := .string s.label

def decoder : Decoder Severity := .variant [(error.label, error), (warning.label, warning)]

end Severity

/-! ## Issues -/

namespace Issue

def json (i : Issue) : Json :=
  .object [("ruleId", .string i.ruleId), ("message", .string i.message),
    ("severity", i.severity.json), ("section", .text? i.sectionName), ("target", .text? i.target),
    ("autoFixable", .bool i.fixable), ("suggestedFix", .text? i.suggestion)]

def record : Record Issue where
  title := "ValidationIssue"
  blank := { ruleId := "", message := "", severity := .error }
  fields := [
    .required "ruleId" .text fun v i => { i with ruleId := v },
    .required "message" .text fun v i => { i with message := v },
    .required "severity" Severity.decoder fun v i => { i with severity := v },
    .optional "section" (.orNull .text) fun v i => { i with sectionName := v },
    .optional "target" (.orNull .text) fun v i => { i with target := v },
    .required "autoFixable" .boolean fun v i => { i with fixable := v },
    .optional "suggestedFix" (.orNull .text) fun v i => { i with suggestion := v }]

end Issue

/-! ## Reports -/

namespace Fault

def json (f : Fault) : Json :=
  .object [("ruleId", .string f.ruleId), ("message", .string f.message)]

def record : Record Fault where
  title := "RuleFault"
  blank := { ruleId := "", message := "" }
  fields := [
    .required "ruleId" .text fun v f => { f with ruleId := v },
    .required "message" .text fun v f => { f with message := v }]

end Fault

namespace Report

def issuesJson (r : Report) : Json := .array (r.issues.map Issue.json)

def faultsJson (r : Report) : Json := .array (r.faults.map Fault.json)

def json (r : Report) : Json :=
  .object (("issues", r.issuesJson) ::
    if r.faults.isEmpty then [] else [("faults", r.faultsJson)])

def record : Record Report where
  title := "ValidationReport"
  blank := {}
  fields := [
    .required "issues" (.list Issue.record.decode) fun v r => { r with issues := v },
    .defaulted "faults" (.list Fault.record.decode) fun v r => { r with faults := v }]

end Report

end BuildChain
