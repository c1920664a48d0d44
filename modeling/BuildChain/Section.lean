import BuildChain.OrderedMap
import BuildChain.Text.Blank
import BuildChain.Text.Fold

/-!
# Sections

A section holds the properties of one project: the keys that share the project's name in front of
their first dot. Six property suffixes are known; `Section.ordered` lists them in their fixed order
and every other property after them.
-/

namespace BuildChain

/-! ## Property suffixes -/

namespace Property

def mode : String := "mode"

def devMode : String := "mode.devs"

def fork : String := "fork"

def branch : String := "branch"

def tag : String := "tag"

def testsUnit : String := "tests.unit"

/-- The known suffixes in the order in which a section lists them. -/
def known : List String := [mode, devMode, fork, branch, tag, testsUnit]

/-- The place of a suffix in that order; all unknown suffixes share the place after the last. -/
def rank (suffix : String) : Nat := known.idxOf suffix

end Property

/-! ## Build modes -/

inductive BuildMode
  | source
  | binary
  | ignored
deriving DecidableEq

namespace BuildMode

def text : BuildMode → String
  | source => "source"
  | binary => "binary"
  | ignored => "ignore"

/-- A mode is written in exactly one way. -/
def ofText? (s : String) : Option BuildMode :=
  [source, binary, ignored].find? fun m => m.text = s

end BuildMode

/-! ## Boolean literals -/

/-- The literal that stands for a flag. -/
def flagText (enabled : Bool) : String := if enabled then "true" else "false"

/-! ## Sections -/

structure Section where
  name : String
  properties : OrderedMap String := ∅
deriving DecidableEq

namespace Section

def get? (s : Section) (suffix : String) : Option String := s.properties.get? suffix

/-- The value as it stands, unless it is blank. -/
def nonBlank? (s : Section) (suffix : String) : Option String :=
  (s.get? suffix).filter fun v => !Text.isBlank v

def has (s : Section) (suffix : String) : Bool := (s.nonBlank? suffix).isSome

def set (s : Section) (suffix value : String) : Section :=
  { s with properties := s.properties.insert suffix value }

def erase (s : Section) (suffix : String) : Section :=
  { s with properties := s.properties.erase suffix }

def isNamed (s : Section) (name : String) : Bool := Text.sameName s.name name

/-- Unit tests run only when the trimmed property is the literal `true`. -/
def testsUnit (s : Section) : Bool :=
  match s.get? Property.testsUnit with
  | some v => Text.trim v = "true"
  | none => false

def setTestsUnit (s : Section) (enabled : Bool) : Section :=
  s.set Property.testsUnit (flagText enabled)

/-- The properties as they are written: known suffixes in their fixed order, then the others in
the order of their insertion. -/
def ordered (s : Section) : List (String × String) :=
  (Property.known.filterMap fun suffix => (s.get? suffix).map fun v => (suffix, v)) ++
    s.properties.toList.filter fun e => !Property.known.contains e.1

/-- The properties that are written out, each with its value trimmed. -/
def written (s : Section) : List (String × String) :=
  s.ordered.filterMap fun e => (Text.trimmed? e.2).map fun v => (e.1, v)

end Section

end BuildChain
