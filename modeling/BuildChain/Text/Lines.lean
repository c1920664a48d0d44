import BuildChain.Text.Split

/-!
# Lines

A line ends at a line feed, and a carriage return directly before that line feed belongs to the
line break. A carriage return elsewhere is an ordinary character, also at the very end of the text.
-/

namespace BuildChain.Text

def dropReturn (cs : List Char) : List Char :=
  if cs.getLast? = some '\r' then cs.dropLast else cs

/-- The pieces of a text between its line feeds as lines: every piece but the last gives up a final
carriage return, and the last one is a line only when it holds something. -/
def linesOfPieces : List (List Char) → List (List Char)
  | ps => match ps.getLast? with
    | none => []
    | some last => ps.dropLast.map dropReturn ++ if last.isEmpty then [] else [last]

def lines (s : String) : List String :=
  (linesOfPieces (pieces '\n' s.toList)).map String.ofList

/-- Whether a carriage return is directly followed by a line feed somewhere. -/
def hasReturnFeed : List Char → Bool
  | '\r' :: '\n' :: _ => true
  | _ :: cs => hasReturnFeed cs
  | [] => false

/-- The line break a text uses: that of Windows if it occurs at all. -/
def lineBreak (s : String) : String := if hasReturnFeed s.toList then "\r\n" else "\n"

/-- Whether the last line of a text is closed by a line feed; the empty text counts as closed. -/
def endsClosed (s : String) : Bool :=
  match s.toList.getLast? with
  | none => true
  | some c => c == '\n'

end BuildChain.Text
