import BuildChain.Chain.Basic
import BuildChain.Line
import BuildChain.Text.Lines

/-!
# Reading a chain

Only active assignments count. A key that is set twice keeps its first place and its last value,
and the sections appear in the order and the spelling in which they are first named. Nothing is
checked: odd values are kept for the rules to find.
-/

namespace BuildChain.Chain

/-- The active assignment on a line. -/
def activeEntry? (line : String) : Option (String × String) :=
  match Assignment.ofLine? line with
  | some a => if a.active then some (a.key, a.value) else none
  | none => none

/-- The settings of a text, one entry a key. -/
def settings (text : String) : OrderedMap String :=
  OrderedMap.ofList ((Text.lines text).filterMap activeEntry?)

/-- Puts one setting where its key leads. -/
def place (c : Chain) (key value : String) : Chain :=
  match Route.ofKey key with
  | .global key => { c with globals := (c.globals.set? key value).getD c.globals }
  | .flag suite =>
    match readFlag value with
    | some enabled => { c with flags := c.flags.insert suite enabled }
    | none => { c with rawFlags := c.rawFlags.insert suite value }
  | .property name suffix => c.upsertSection name fun s => s.set suffix value
  | .nowhere => c

/-- Reads a chain and keeps the text with it. -/
def ofText (text : String) : Chain :=
  let c := (settings text).toList.foldl (fun c e => place c e.1 e.2) {}
  { c with source := some text }

end BuildChain.Chain
