import BuildChain.Chain.Basic

/-!
# Editing sections by name

An edit names the sections it is about. It changes all sections of these names, or none when a name
has no section or the new value is not acceptable, and it counts the sections that are different
afterwards. Made in place, it checks all names before it changes one section after the other.
-/

namespace BuildChain

inductive EditError
  | sectionNotFound (name : String)
  /-- A value that is no build mode, and the property it was meant for. -/
  | invalidMode (property value : String)
  | blankBranch
  | blankFeatureBranch
  | blankProject
  | duplicateProject (name : String)
deriving DecidableEq

namespace EditError

def invalidRequest (reason : String) : String := "invalid generation request: " ++ reason

def message : EditError → String
  | sectionNotFound name => "section not found: " ++ name
  | invalidMode property value =>
    "invalid " ++ property ++ " '" ++ value ++ "' (expected source, binary or ignore)"
  | blankBranch => invalidRequest "branch is blank"
  | blankFeatureBranch => invalidRequest "feature branch is blank"
  | blankProject => invalidRequest "project name is blank"
  | duplicateProject name => invalidRequest ("duplicate project '" ++ name ++ "'")

end EditError

namespace Edit

/-! ## Changes to one section -/

/-- A change gives nothing when the section is as it should be already. -/
abbrev Change := Section → Option Section

def setProperty (suffix value : String) : Change := fun s =>
  if s.get? suffix = some value then none else some (s.set suffix value)

/-- Puts a section on a branch, without a tag. -/
def setBranch (branch : String) : Change := fun s =>
  let untagged := s.erase Property.tag
  if untagged.get? Property.branch = some branch then
    if (s.get? Property.tag).isSome then some untagged else none
  else some (untagged.set Property.branch branch)

def setTestsUnit (enabled : Bool) : Change := fun s =>
  if s.has Property.testsUnit && s.testsUnit == enabled then none
  else some (s.setTestsUnit enabled)

/-! ## Changes to all sections of some names -/

def isAmong (names : List String) (s : Section) : Bool := names.any fun n => s.isNamed n

/-- Changes every section of the names, and counts those that a change is made to. -/
def sections (c : Chain) (names : List String) (change : Change) :
    Except EditError (Chain × Nat) :=
  match names.find? fun n => !c.hasSection n with
  | some name => .error (.sectionNotFound name)
  | none =>
    .ok
      ({ c with
          sections := c.sections.map fun s =>
            if isAmong names s then (change s).getD s else s },
        (c.sections.filter fun s => isAmong names s && (change s).isSome).length)

def branch (c : Chain) (names : List String) (branch : String) : Except EditError (Chain × Nat) :=
  match Text.trimmed? branch with
  | none => .error .blankBranch
  | some branch => sections c names (setBranch branch)

/-- Sets one of the two mode properties. -/
def modeProperty (property : String) (c : Chain) (names : List String) (mode : String) :
    Except EditError (Chain × Nat) :=
  let mode := Text.trim mode
  match BuildMode.ofText? mode with
  | none => .error (.invalidMode property mode)
  | some m => sections c names (setProperty property m.text)

def mode : Chain → List String → String → Except EditError (Chain × Nat) :=
  modeProperty Property.mode

def devMode : Chain → List String → String → Except EditError (Chain × Nat) :=
  modeProperty Property.devMode

def unitTests (c : Chain) (names : List String) (enabled : Bool) :
    Except EditError (Chain × Nat) :=
  sections c names (setTestsUnit enabled)

/-- Sets the flag of a suite, whose name is trimmed. -/
def suite (c : Chain) (suite : String) (enabled : Bool) : Chain :=
  c.setFlag (Text.trim suite) enabled

/-! ## One section after the other -/

/-- What edits a chain in place and ends in a result or an error, with what it has done either
way. -/
abbrev Editing := EStateM EditError Chain

def checkNames : List String → Editing Unit
  | [] => pure ()
  | name :: names => do
    if !(← get).hasSection name then throw (.sectionNotFound name)
    checkNames names

/-- Changes the section at a position if it has one of the names, and counts that. -/
def changeAt (names : List String) (change : Change) (n i : Nat) : Editing Nat := do
  let c ← get
  match (c.sections[i]?.filter (isAmong names)).bind change with
  | some s =>
    set { c with sections := c.sections.set i s }
    return n + 1
  | none => return n

/-- Changes the sections of the names where they stand, after all names were checked. -/
def sectionsInPlace (names : List String) (change : Change) : Editing Nat := do
  checkNames names
  let c ← get
  (List.range c.sections.length).foldlM (changeAt names change) 0

/-! ## Updates in place -/

/-- The edits that give sections a new value. -/
inductive Update
  | branch (branch : String)
  | mode (mode : String)
  | devMode (mode : String)
  | unitTests (enabled : Bool)

namespace Update

/-- The update of the sections of some names of a chain. -/
def apply (u : Update) (c : Chain) (names : List String) : Except EditError (Chain × Nat) :=
  match u with
  | .branch b => Edit.branch c names b
  | .mode m => Edit.mode c names m
  | .devMode m => Edit.devMode c names m
  | .unitTests enabled => Edit.unitTests c names enabled

def changeMode (property mode : String) : Except EditError Change :=
  match BuildMode.ofText? (Text.trim mode) with
  | none => .error (.invalidMode property (Text.trim mode))
  | some m => .ok (setProperty property m.text)

/-- The change that the update makes to a section, if its value is acceptable. -/
def toChange (u : Update) : Except EditError Change :=
  match u with
  | .branch b =>
    match Text.trimmed? b with
    | none => .error .blankBranch
    | some b => .ok (setBranch b)
  | .mode m => changeMode Property.mode m
  | .devMode m => changeMode Property.devMode m
  | .unitTests enabled => .ok (setTestsUnit enabled)

/-- The update as it is made in place. -/
def inPlace (u : Update) (names : List String) : Editing Nat :=
  match u.toChange with
  | .ok change => sectionsInPlace names change
  | .error e => throw e

end Update

end Edit

end BuildChain
