import BuildChain.Section

/-!
# Chains

A chain is what one build chain file describes: the global settings, the sections in order and the
integration test flags. A flag whose value is no boolean is kept apart as text. A chain that was
read from a file also carries the file's text, which the preserving writer edits.
-/

namespace BuildChain

/-! ## Global settings -/

namespace GlobalKey

def version : String := "global.version.binary"

def devVersion : String := "global.devs.version.binary"

def recipients : String := "global.recipients"

end GlobalKey

structure Globals where
  version : Option String := none
  devVersion : Option String := none
  recipients : Option String := none
deriving DecidableEq

namespace Globals

/-- Sets the field a key stands for; other keys are not recognised. -/
def set? (g : Globals) (key value : String) : Option Globals :=
  if key = GlobalKey.version then some { g with version := some value }
  else if key = GlobalKey.devVersion then some { g with devVersion := some value }
  else if key = GlobalKey.recipients then some { g with recipients := some value }
  else none

def entries (g : Globals) : List (String × Option String) :=
  [(GlobalKey.version, g.version), (GlobalKey.devVersion, g.devVersion),
    (GlobalKey.recipients, g.recipients)]

/-- The fields that are written out, each with its value trimmed. -/
def written (g : Globals) : List (String × String) :=
  g.entries.filterMap fun e => (e.2.bind Text.trimmed?).map fun v => (e.1, v)

def nonBlank? (value : Option String) : Option String := value.filter fun v => !Text.isBlank v

/-- The version under a key, as it stands, unless it is blank; only the two version keys have
one. -/
def versionAt? (g : Globals) (key : String) : Option String :=
  if key = GlobalKey.version then nonBlank? g.version
  else if key = GlobalKey.devVersion then nonBlank? g.devVersion
  else none

end Globals

/-! ## Chains -/

structure Chain where
  globals : Globals := {}
  sections : List Section := []
  flags : OrderedMap Bool := ∅
  rawFlags : OrderedMap String := ∅
  source : Option String := none
deriving DecidableEq

namespace Chain

/-- Changes the first element with a property. -/
def modifyFirst {α : Type} (p : α → Bool) (f : α → α) : List α → List α
  | [] => []
  | x :: xs => if p x then f x :: xs else x :: modifyFirst p f xs

/-- The first section of a name, whatever the case of the name. -/
def section? (c : Chain) (name : String) : Option Section :=
  c.sections.find? fun s => s.isNamed name

def hasSection (c : Chain) (name : String) : Bool := c.sections.any fun s => s.isNamed name

def modifySection (c : Chain) (name : String) (f : Section → Section) : Chain :=
  { c with sections := modifyFirst (fun s => s.isNamed name) f c.sections }

/-- Changes the first section of a name, after adding an empty one at the end if there is none. -/
def upsertSection (c : Chain) (name : String) (f : Section → Section) : Chain :=
  if c.hasSection name then c.modifySection name f
  else { c with sections := c.sections ++ [f { name := name }] }

def push (c : Chain) (s : Section) : Chain := { c with sections := c.sections ++ [s] }

def anyMode (c : Chain) (mode : String) : Bool :=
  c.sections.any fun s => s.get? Property.mode = some mode

def anyDevMode (c : Chain) (mode : String) : Bool :=
  c.sections.any fun s => s.get? Property.devMode = some mode

/-- Sets a flag to a boolean; a text kept for the same suite is dropped. -/
def setFlag (c : Chain) (suite : String) (enabled : Bool) : Chain :=
  { c with rawFlags := c.rawFlags.erase suite, flags := c.flags.insert suite enabled }

end Chain

end BuildChain
