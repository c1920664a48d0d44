import BuildChain.Chain.Basic
import BuildChain.Line
import BuildChain.Order
import BuildChain.Text.Lines

/-!
# Editing the lines of a file

A document is the list of a file's lines. A value is written onto the line that holds its key, if
there is one: the last active such line, else the last one commented out. A new key gets a line of
its own beside the lines it belongs to, and a whole new section gets a block of its own. No other
line is touched.
-/

namespace BuildChain

abbrev Document := List String

namespace Document

def indicesWhere (p : String → Bool) (doc : Document) : List Nat :=
  (doc.zipIdx.filter fun e => p e.1).map Prod.snd

def lastWhere? (p : String → Bool) (doc : Document) : Option Nat :=
  (doc.indicesWhere p).getLast?

def firstWhere? (p : String → Bool) (doc : Document) : Option Nat :=
  (doc.indicesWhere p).head?

/-! ## Lines that hold a key -/

/-- Whether a line assigns a key, whatever its case, and is active or not as asked for. -/
def holds (key : String) (active : Bool) (line : String) : Bool :=
  match Assignment.ofLine? line with
  | some a => Text.sameName a.key key && a.active == active
  | none => false

/-- The line a key is written on: the last active one, else the last one commented out. -/
def find? (doc : Document) (key : String) : Option Nat :=
  (doc.lastWhere? (holds key true)).or (doc.lastWhere? (holds key false))

def addresses (p : Route → Bool) (line : String) : Bool :=
  match Route.ofLine? line with
  | some r => p r
  | none => false

/-! ## Inserting -/

def insertAt (doc : Document) (i : Nat) (block : List String) : Document :=
  doc.take i ++ block ++ doc.drop i

/-- An empty line, if the neighbour is there and holds something. -/
def gap : Option String → List String
  | some line => if Text.isBlank line then [] else [""]
  | none => []

/-- Inserts a block with an empty line on either side, unless there is one already. -/
def insertBlock (doc : Document) (i : Nat) (block : List String) : Document :=
  doc.insertAt i (gap (doc.take i).getLast? ++ block ++ gap (doc.drop i).head?)

/-- The start of the plain comments directly above a line. -/
def commentHead (doc : Document) (i : Nat) : Nat :=
  i - ((doc.take i).reverse.takeWhile Line.isPlainComment).length

/-- Writes a value onto the line that holds its key, or inserts a new line. -/
def upsert (doc : Document) (key value : String) (place : Document → String → Document) :
    Document :=
  match doc.find? key with
  | some i => doc.modify i (Line.reassign value)
  | none => place doc (Line.assign key value)

/-! ## Global settings -/

def isGlobal : Route → Bool
  | .global _ => true
  | _ => false

/-- A new global setting goes below the last one, else below the comments the file opens with. -/
def placeGlobal (doc : Document) (line : String) : Document :=
  match doc.lastWhere? (addresses isGlobal) with
  | some i => doc.insertAt (i + 1) [line]
  | none => doc.insertBlock (doc.takeWhile Line.isPlainComment).length [line]

def upsertGlobal (doc : Document) (key value : String) : Document :=
  doc.upsert key value placeGlobal

/-! ## Sections -/

/-- The lines of one section, active or not, each with the rank of its property. -/
def sectionLines (doc : Document) (name : String) : List (Nat × Nat) :=
  doc.zipIdx.filterMap fun e =>
    match Route.ofLine? e.1 with
    | some (.property n suffix) =>
      if Text.sameName n name then some (e.2, Property.rank suffix) else none
    | _ => none

def hasSection (doc : Document) (name : String) : Bool := !(doc.sectionLines name).isEmpty

/-- A new property goes before the first line of its section that ranks after it, else below the
section's last line. -/
def placeProperty (name suffix : String) (doc : Document) (line : String) : Document :=
  let rows := doc.sectionLines name
  match rows.find? fun row => Property.rank suffix < row.2 with
  | some row => doc.insertAt row.1 [line]
  | none =>
    match rows.getLast? with
    | some row => doc.insertAt (row.1 + 1) [line]
    | none => doc.insertAt doc.length [line]

def upsertProperty (doc : Document) (name suffix value : String) : Document :=
  doc.upsert (Route.propertyKey name suffix) value (placeProperty name suffix)

def isProperty : Route → Bool
  | .property _ _ => true
  | _ => false

def isFlag : Route → Bool
  | .flag _ => true
  | _ => false

/-- Where a section goes by the canonical order alone: above the next canonical section of the
file and its comments, else below the previous one. -/
def canonicalSlot? (doc : Document) (o : Order) (name : String) : Option Nat :=
  match o.position? name with
  | none => none
  | some i =>
    let next := (o.names.drop (i + 1)).findSome? fun n =>
      (doc.sectionLines n).head?.map fun row => doc.commentHead row.1
    let previous := (o.names.take i).reverse.findSome? fun n =>
      (doc.sectionLines n).getLast?.map fun row => row.1 + 1
    next.or previous

/-- Where a section without a line goes when the order does not tell: below the last section line,
else above the first flag and its comments, else at the end. -/
def looseSlot (doc : Document) : Nat :=
  match doc.lastWhere? (addresses isProperty) with
  | some i => i + 1
  | none =>
    match doc.firstWhere? (addresses isFlag) with
    | some i => doc.commentHead i
    | none => doc.length

def sectionSlot (doc : Document) (o : Order) (name : String) : Nat :=
  (doc.canonicalSlot? o name).getD doc.looseSlot

/-- The lines of a section that has none yet. -/
def sectionBlock (s : Section) : List String :=
  s.written.map fun e => Line.assign (Route.propertyKey s.name e.1) e.2

/-- A section with nothing to write leaves the file as it is. -/
def insertSection (doc : Document) (o : Order) (s : Section) : Document :=
  match sectionBlock s with
  | [] => doc
  | block => doc.insertBlock (doc.sectionSlot o s.name) block

def upsertSection (o : Order) (doc : Document) (s : Section) : Document :=
  if doc.hasSection s.name then
    s.written.foldl (fun d e => d.upsertProperty s.name e.1 e.2) doc
  else doc.insertSection o s

/-! ## Integration test flags -/

/-- A new flag goes below the last one, else at the end as a block of its own. -/
def placeFlag (doc : Document) (line : String) : Document :=
  match doc.lastWhere? (addresses isFlag) with
  | some i => doc.insertAt (i + 1) [line]
  | none => doc.insertBlock doc.length [line]

def upsertFlag (doc : Document) (suite value : String) : Document :=
  doc.upsert (Route.flagKey suite) value placeFlag

/-! ## Settings that are gone -/

/-- Whether the chain still has what a key addresses. A key that the chain has no place for is
kept, and a value that is blank counts as present. -/
def keeps (c : Chain) : Route → Bool
  | .global key =>
    match c.globals.entries.lookup key with
    | some value => value.isSome
    | none => true
  | .flag suite => (c.flags.keys ++ c.rawFlags.keys).any fun s => Text.sameName s suite
  | .property name suffix =>
    match c.section? name with
    | some s => (s.get? suffix).isSome
    | none => false
  | .nowhere => true

/-- Comments out an active line whose setting is gone. -/
def retire (c : Chain) (line : String) : String :=
  match Assignment.ofLine? line with
  | some a => if a.active && !keeps c (Route.ofKey a.key) then Line.commentOut line else line
  | none => line

/-! ## Writing a chain onto its document -/

/-- The flags that are written out: the boolean ones, then the others with their text trimmed. -/
def writtenFlags (c : Chain) : List (String × String) :=
  (c.flags.toList.map fun e => (e.1, flagText e.2)) ++
    c.rawFlags.toList.filterMap fun e => (Text.trimmed? e.2).map fun v => (e.1, v)

/-- Writes every setting of the chain, then comments out the lines of the settings it lacks. -/
def update (o : Order) (c : Chain) (doc : Document) : Document :=
  let doc := c.globals.written.foldl (fun d e => d.upsertGlobal e.1 e.2) doc
  let doc := c.sections.foldl (upsertSection o) doc
  let doc := (writtenFlags c).foldl (fun d e => d.upsertFlag e.1 e.2) doc
  doc.map (retire c)

end Document

end BuildChain
