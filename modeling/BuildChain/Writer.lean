import BuildChain.Document

/-!
# Writing a chain

A chain that carries the text it was read from is written onto that text: see `Document.update`.
Any other chain is laid out afresh: a header, the global settings, the canonical sections, the other
sections and the flags, as blocks with an empty line between them.
-/

namespace BuildChain

structure Writer where
  order : Order := Order.standard
  /-- The creation time shown in the header of a fresh file, if any. -/
  stamp : Option String := none
deriving DecidableEq

namespace Writer

/-! ## Onto the text of a file -/

/-- The lines as one text, closed by a line break if asked for and if there is any line. -/
def assemble (lineBreak : String) (closed : Bool) (doc : Document) : String :=
  let text := String.intercalate lineBreak doc
  if closed && !doc.isEmpty then text ++ lineBreak else text

def renderOnto (w : Writer) (source : String) (c : Chain) : String :=
  assemble (Text.lineBreak source) (Text.endsClosed source)
    (Document.update w.order c (Text.lines source))

/-! ## Afresh -/

def title : String := "# Build chain configuration"

def header (w : Writer) : List String :=
  match w.stamp with
  | some time => [title, "# Generated " ++ time]
  | none => [title]

def globalBlock (g : Globals) : List String := g.written.map fun e => Line.assign e.1 e.2

/-- Stands in a canonical section for the developer mode it leaves open. -/
def devModePlaceholder (s : Section) : String :=
  "#" ++ Line.assign (Route.propertyKey s.name Property.devMode) BuildMode.binary.text

/-- A canonical section without a developer mode shows a placeholder for it, below its mode. -/
def canonicalBlock (s : Section) : List String :=
  let block := Document.sectionBlock s
  if s.has Property.devMode then block
  else block.insertIdx (if s.has Property.mode then 1 else 0) (devModePlaceholder s)

def flagBlock (c : Chain) : List String :=
  (Document.writtenFlags c).map fun e => Line.assign (Route.flagKey e.1) e.2

/-- A name that the order repeats shows its sections again. -/
def blocks (w : Writer) (c : Chain) : List (List String) :=
  [w.header, globalBlock c.globals] ++
    (w.order.names.flatMap fun name =>
      (c.sections.filter fun s => s.isNamed name).map canonicalBlock) ++
    (c.sections.filter fun s => !w.order.contains s.name).map Document.sectionBlock ++
    [flagBlock c]

def renderFresh (w : Writer) (c : Chain) : String :=
  String.intercalate "\n\n"
    (((w.blocks c).filter fun b => !b.isEmpty).map (String.intercalate "\n")) ++ "\n"

def render (w : Writer) (c : Chain) : String :=
  match c.source with
  | some source => w.renderOnto source c
  | none => w.renderFresh c

end Writer

end BuildChain
