import BuildChain.Edit
import BuildChain.Json.Shape
import BuildChain.Order

/-!
# Generating a chain

A request lists the settings of a new chain. Every project becomes a section; a project that is
built from source and has neither branch nor tag is put on the feature branch, if there is one.
-/

namespace BuildChain

open Json (Record)

/-! ## Projects -/

structure ProjectRequest where
  name : String := ""
  mode : Option String := none
  devMode : Option String := none
  branch : Option String := none
  tag : Option String := none
  fork : Option String := none
  testsUnit : Option Bool := none
deriving DecidableEq

namespace ProjectRequest

def record : Record ProjectRequest where
  title := "ProjectConfig"
  blank := {}
  fields := [
    .defaulted "name" .text fun v p => { p with name := v },
    .defaulted "mode" (.orNull .text) fun v p => { p with mode := v },
    .defaulted "devMode" (.orNull .text) fun v p => { p with devMode := v },
    .defaulted "branch" (.orNull .text) fun v p => { p with branch := v },
    .defaulted "tag" (.orNull .text) fun v p => { p with tag := v },
    .defaulted "fork" (.orNull .text) fun v p => { p with fork := v },
    .defaulted "testsUnit" (.orNull .boolean) fun v p => { p with testsUnit := v }]

def isSource (p : ProjectRequest) : Bool := p.mode = some BuildMode.source.text

/-- Whether the project has neither a branch nor a tag. -/
def lacksRef (p : ProjectRequest) : Bool :=
  (p.branch.bind Text.trimmed?).isNone && (p.tag.bind Text.trimmed?).isNone

/-- The settings that are there, in the order in which the section gets them. -/
def settings (p : ProjectRequest) : List (String × String) :=
  [(Property.mode, p.mode), (Property.devMode, p.devMode), (Property.fork, p.fork),
    (Property.branch, p.branch), (Property.tag, p.tag)].filterMap fun e =>
      (e.2.bind Text.trimmed?).map fun v => (e.1, v)

def toSection (p : ProjectRequest) : Section :=
  let s := p.settings.foldl (fun (s : Section) e => s.set e.1 e.2) { name := Text.trim p.name }
  match p.testsUnit with
  | some enabled => s.setTestsUnit enabled
  | none => s

/-- The section of the project in a chain with a feature branch, if there is one. -/
def sectionOn (featureBranch : Option String) (p : ProjectRequest) : Section :=
  match featureBranch with
  | some branch =>
    if p.isSource && p.lacksRef then p.toSection.set Property.branch branch else p.toSection
  | none => p.toSection

end ProjectRequest

/-! ## Chains -/

structure ChainRequest where
  version : Option String := none
  devVersion : Option String := none
  recipients : Option String := none
  projects : List ProjectRequest := []
  flags : OrderedMap Bool := ∅
  featureBranch : Option String := none
deriving DecidableEq

namespace ChainRequest

def record : Record ChainRequest where
  title := "ChainGenerationRequest"
  blank := {}
  fields := [
    .defaulted "globalVersion" (.orNull .text) fun v r => { r with version := v },
    .defaulted "devVersion" (.orNull .text) fun v r => { r with devVersion := v },
    .defaulted "recipients" (.orNull .text) fun v r => { r with recipients := v },
    .defaulted "projects" (.list ProjectRequest.record.decode) fun v r => { r with projects := v },
    .defaulted "integrationTests" (.map .boolean) fun v r => { r with flags := v },
    .defaulted "featureBranch" (.orNull .text) fun v r => { r with featureBranch := v }]

def ofText (text : String) : Except Json.ShapeError ChainRequest :=
  Json.decodeText record.decode text

/-- Adds the section of a project, whose name must be new. -/
def addProject (featureBranch : Option String) (c : Chain) (p : ProjectRequest) :
    Except EditError Chain :=
  let name := Text.trim p.name
  if Text.isBlank p.name then .error .blankProject
  else if c.hasSection name then .error (.duplicateProject name)
  else .ok (c.push (p.sectionOn featureBranch))

/-- The trimmed feature branch, which may be left out but not be blank. -/
def trimmedBranch (r : ChainRequest) : Except EditError (Option String) :=
  match r.featureBranch with
  | none => .ok none
  | some branch =>
    match Text.trimmed? branch with
    | some branch => .ok (some branch)
    | none => .error .blankFeatureBranch

/-- The chain of a request, with its sections in order. -/
def chain (r : ChainRequest) (o : Order) : Except EditError Chain := do
  let featureBranch ← r.trimmedBranch
  let globals : Globals := ⟨r.version, r.devVersion, r.recipients⟩
  let c ← r.projects.foldlM (addProject featureBranch) { globals := globals }
  return o.reorder (r.flags.toList.foldl (fun (c : Chain) e => c.setFlag e.1 e.2) c)

end ChainRequest

end BuildChain
