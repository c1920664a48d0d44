import BuildChain.Json.Reading
import BuildChain.Pattern.Term

/-!
# Reading patterns

The notation has literals, escapes, the point, bracketed classes with ranges, negation, nesting and
set operations, groups with flags or names, alternatives, repetition marks and counts, and the marks
for places. Look-around and references to groups do not exist in it. Groups and classes are read
with fuel; the length of the text is enough, since every step consumes a character. Neither may lie
deeper inside one another than the room for them.
-/

namespace BuildChain.Pattern

structure Flags where
  anyCase : Bool := false
  /-- The point accepts a line feed too. -/
  dotAll : Bool := false
  /-- The marks for start and end hold at every line. -/
  perLine : Bool := false
  /-- A question mark behind a repetition makes it eager, and no other repetition is. -/
  swapped : Bool := false

namespace Flags

def set (f : Flags) (c : Char) (on : Bool) : Option Flags :=
  match c with
  | 'i' => some { f with anyCase := on }
  | 's' => some { f with dotAll := on }
  | 'm' => some { f with perLine := on }
  | 'U' => some { f with swapped := on }
  | 'u' => if on then some f else none
  | _ => none

def apply (f : Flags) (s : CharSet) : CharSet := if f.anyCase then .anyCase s else s

end Flags

/-! ## Escapes -/

inductive Escape
  | literal (c : Char)
  | set (s : CharSet)
  | place (p : Place)

/-- A code point that is a character. -/
def charAt? (n : Nat) : Option Char :=
  if n.isValidChar then some (Char.ofNat n) else none

/-- Reads hexadecimal digits, as many as asked for or between braces. -/
def readHex (width : Nat) (cs : List Char) : Option (Escape × List Char) :=
  let value (digits : List Char) : Option Nat :=
    digits.foldl (fun acc c => acc.bind fun n => (Json.hexValue c).map fun d => n * 16 + d) (some 0)
  match cs with
  | '{' :: rest =>
    let digits := rest.takeWhile (· != '}')
    match rest.dropWhile (· != '}') with
    | _ :: rest =>
      if digits.isEmpty then none
      else ((value digits).bind charAt?).map fun c => (.literal c, rest)
    | [] => none
  | cs =>
    if cs.length < width then none
    else ((value (cs.take width)).bind charAt?).map fun c => (.literal c, cs.drop width)

def isAsciiLetter (c : Char) : Bool :=
  (65 ≤ c.toNat && c.toNat ≤ 90) || (97 ≤ c.toNat && c.toNat ≤ 122)

/-- Reads what follows a backslash. -/
def readEscape : List Char → Option (Escape × List Char)
  | [] => none
  | 'x' :: rest => readHex 2 rest
  | 'u' :: rest => readHex 4 rest
  | 'U' :: rest => readHex 8 rest
  | 'd' :: rest => some (.set .decimal, rest)
  | 'D' :: rest => some (.set (.compl .decimal), rest)
  | 's' :: rest => some (.set .space, rest)
  | 'S' :: rest => some (.set (.compl .space), rest)
  | 'w' :: rest => some (.set .word, rest)
  | 'W' :: rest => some (.set (.compl .word), rest)
  | 'a' :: rest => some (.literal (Char.ofNat 7), rest)
  | 'f' :: rest => some (.literal (Char.ofNat 12), rest)
  | 'n' :: rest => some (.literal '\n', rest)
  | 'r' :: rest => some (.literal '\r', rest)
  | 't' :: rest => some (.literal '\t', rest)
  | 'v' :: rest => some (.literal (Char.ofNat 11), rest)
  | 'A' :: rest => some (.place .textStart, rest)
  | 'z' :: rest => some (.place .textEnd, rest)
  | 'b' :: rest => some (.place .wordEdge, rest)
  | 'B' :: rest => some (.place .wordInside, rest)
  | '<' :: rest => some (.place .wordStart, rest)
  | '>' :: rest => some (.place .wordEnd, rest)
  | c :: rest =>
    if c.toNat < 128 && !isAsciiLetter c && !Text.isDigit c then some (.literal c, rest) else none

/-! ## Classes -/

/-- The named ASCII classes. -/
def namedClass? (name : String) : Option CharSet :=
  let graphic : CharSet := .range 33 126
  let letters : CharSet := .union .lower .upper
  [("alnum", CharSet.union letters .digit), ("alpha", letters), ("ascii", .range 0 127),
    ("blank", .union (.single '\t') (.single ' ')),
    ("cntrl", .union (.range 0 31) (.range 127 127)),
    ("digit", .digit), ("graph", graphic), ("lower", .lower), ("print", .range 32 126),
    ("punct", .diff graphic (.union letters .digit)),
    ("space", .union (.range 9 13) (.single ' ')), ("upper", .upper),
    ("word", .union (.single '_') (.union letters .digit)),
    ("xdigit", .union .digit (.union (.between 'a' 'f') (.between 'A' 'F')))].lookup name

/-- Reads a named class behind its opening bracket. -/
def readNamedClass (cs : List Char) : Option (CharSet × List Char) :=
  match cs with
  | ':' :: rest =>
    let (negated, rest) := match rest with
      | '^' :: rest => (true, rest)
      | rest => (false, rest)
    let name := rest.takeWhile isAsciiLetter
    match rest.dropWhile isAsciiLetter with
    | ':' :: ']' :: rest =>
      (namedClass? (String.ofList name)).map fun s => (if negated then .compl s else s, rest)
    | _ => none
  | _ => none

/-- A part of a class: one character, or a set that cannot bound a range. -/
inductive ClassPart
  | one (c : Char)
  | many (s : CharSet)

def readClassPart : List Char → Option (ClassPart × List Char)
  | [] => none
  | '\\' :: rest =>
    match readEscape rest with
    | some (.literal c, rest) => some (.one c, rest)
    | some (.set s, rest) => some (.many s, rest)
    | _ => none
  | c :: rest => some (.one c, rest)

/-- Reads a part of a class or a range between two characters. -/
def readClassRange (f : Flags) (cs : List Char) : Option (CharSet × List Char) :=
  match readClassPart cs with
  | none => none
  | some (part, rest) =>
    let alone : CharSet := match part with
      | .one c => f.apply (.single c)
      | .many s => s
    match rest with
    | '-' :: ']' :: _ => some (alone, rest)
    | '-' :: '-' :: _ => some (alone, rest)
    | '-' :: next =>
      match part, readClassPart next with
      | .one a, some (.one b, rest) =>
        if a.toNat ≤ b.toNat then some (f.apply (.between a b), rest) else none
      | _, _ => none
    | _ => some (alone, rest)

/-- A set of characters and the depth of the classes that it is written with. -/
structure ClassTerm where
  set : CharSet
  depth : Nat := 0

namespace ClassTerm

def union : List ClassTerm → ClassTerm
  | [t] => t
  | ts => ⟨CharSet.unionAll (ts.map (·.set)), if ts.isEmpty then 0 else greatest ts + 1⟩
where
  greatest (ts : List ClassTerm) : Nat := ts.foldl (fun n t => max n t.depth) 0

def binary (op : CharSet → CharSet → CharSet) (a b : ClassTerm) : ClassTerm :=
  ⟨op a.set b.set, max a.depth b.depth + 1⟩

def bracketed (negated : Bool) (t : ClassTerm) : ClassTerm :=
  ⟨if negated then .compl t.set else t.set, t.depth + 1⟩

end ClassTerm

/-- A set operation that waits for its right side. -/
abbrev Pending := Option ((CharSet → CharSet → CharSet) × ClassTerm)

def combine (pending : Pending) (items : List ClassTerm) : ClassTerm :=
  let right := ClassTerm.union items
  match pending with
  | some (op, left) => .binary op left right
  | none => right

/-- The dashes a class starts with. -/
def leadingDashes (cs : List Char) : List Char := cs.takeWhile (· == '-')

/-- Reads the opening of a class behind its bracket: whether it is negated, and the dashes or the
closing bracket that stand for themselves at its start. -/
def readClassOpening (f : Flags) (cs : List Char) : Bool × List ClassTerm × List Char :=
  let (negated, cs) := match cs with
    | '^' :: rest => (true, rest)
    | rest => (false, rest)
  match leadingDashes cs with
  | [] =>
    match cs with
    | ']' :: rest => (negated, [⟨f.apply (.single ']'), 0⟩], rest)
    | cs => (negated, [], cs)
  | dashes => (negated, dashes.map fun c => ⟨.single c, 0⟩, cs.dropWhile (· == '-'))

/-- Reads a class up to its closing bracket. -/
def readClassFrom (f : Flags) : Nat → Nat → Bool → Pending → List ClassTerm → List Char →
    Option (ClassTerm × List Char)
  | 0, _, _, _, _, _ => none
  | fuel + 1, room, negated, pending, items, cs =>
    let operation (op : CharSet → CharSet → CharSet) (rest : List Char) :=
      readClassFrom f fuel room negated (some (op, combine pending items)) [] rest
    match cs with
    | [] => none
    | ']' :: rest => some (.bracketed negated (combine pending items), rest)
    | '[' :: rest =>
      match readNamedClass rest, room with
      | some (s, rest), _ =>
        readClassFrom f fuel room negated pending (⟨f.apply s, 0⟩ :: items) rest
      | none, 0 => none
      | none, room + 1 =>
        let (inner, start, rest) := readClassOpening f rest
        match readClassFrom f fuel room inner none start rest with
        | some (t, rest) => readClassFrom f fuel (room + 1) negated pending (t :: items) rest
        | none => none
    | '&' :: '&' :: rest => operation .inter rest
    | '-' :: '-' :: rest => operation .diff rest
    | '~' :: '~' :: rest => operation .symmDiff rest
    | cs =>
      match readClassRange f cs with
      | some (s, rest) => readClassFrom f fuel room negated pending (⟨s, 0⟩ :: items) rest
      | none => none

def readClass (f : Flags) (fuel room : Nat) (cs : List Char) : Option (ClassTerm × List Char) :=
  let (negated, start, rest) := readClassOpening f cs
  readClassFrom f fuel room negated none start rest

/-! ## Repetition -/

def readCount (cs : List Char) : Option (Nat × List Char) :=
  let cs := cs.dropWhile Text.isSpace
  let digits := cs.takeWhile Text.isDigit
  let n := Text.numeralValue digits
  if digits.isEmpty || Nat.pow 2 32 ≤ n then none
  else some (n, (cs.dropWhile Text.isDigit).dropWhile Text.isSpace)

/-- Reads a count between braces, behind the opening one: the least number of repetitions and the
greatest, if there is one. -/
def readCounts (cs : List Char) : Option ((Nat × Option Nat) × List Char) :=
  match readCount cs with
  | none => none
  | some (least, '}' :: rest) => some ((least, some least), rest)
  | some (least, ',' :: rest) =>
    match rest with
    | '}' :: rest => some ((least, none), rest)
    | rest =>
      match readCount rest with
      | some (most, '}' :: rest) => if least ≤ most then some ((least, some most), rest) else none
      | _ => none
  | _ => none

/-- Reads the question mark that may follow a repetition mark: whether the repetition is eager. That
changes which part is found, not whether there is one. -/
def readEagerness (f : Flags) : List Char → Bool × List Char
  | '?' :: rest => (f.swapped, rest)
  | rest => (!f.swapped, rest)

/-- The term with the last item repeated; flags and nothing at all cannot be. -/
def repeatLast (least : Nat) (most : Option Nat) (eager : Bool) :
    List Term → Option (List Term)
  | [] | .blank :: _ | .flags :: _ => none
  | t :: items => some (.many t least most eager :: items)

/-! ## Groups -/

inductive GroupOpening
  /-- The flags hold from here on; there is no group. -/
  | flags (f : Flags)
  | group (f : Flags) (captures : Bool)

/-- Reads flags up to the mark that ends them. -/
def readFlags (f : Flags) (on : Bool) (seen : List Char) :
    List Char → Option (GroupOpening × List Char)
  | [] => none
  | ')' :: rest => if seen.isEmpty || seen.head? = some '-' then none else some (.flags f, rest)
  | ':' :: rest => if seen.head? = some '-' then none else some (.group f false, rest)
  | '-' :: rest => if seen.contains '-' then none else readFlags f false ('-' :: seen) rest
  | c :: rest =>
    if seen.contains c then none
    else (f.set c on).bind fun g => readFlags g on (c :: seen) rest

def isNameStart (c : Char) : Bool := c == '_' || (Text.isWord c && !Text.isDecimal c)

/-- Reads the name of a group up to the bracket that closes it. -/
def readGroupName (f : Flags) (cs : List Char) : Option (GroupOpening × List Char) :=
  let name := cs.takeWhile (· != '>')
  match name, cs.dropWhile (· != '>') with
  | c :: more, _ :: rest =>
    if isNameStart c && more.all fun d => Text.isWord d || d == '.' || d == '[' || d == ']' then
      some (.group f true, rest)
    else none
  | _, _ => none

/-- Reads the opening of a group behind its parenthesis. -/
def readGroupOpening (f : Flags) : List Char → Option (GroupOpening × List Char)
  | '?' :: 'P' :: '<' :: rest => readGroupName f rest
  | '?' :: '<' :: rest => readGroupName f rest
  | '?' :: rest => readFlags f true [] rest
  | rest => some (.group f true, rest)

/-! ## Terms -/

def Flags.lineStart (f : Flags) : Term := .place (if f.perLine then .lineStart else .textStart)

def Flags.lineEnd (f : Flags) : Term := .place (if f.perLine then .lineEnd else .textEnd)

def Flags.point (f : Flags) : Term := .set (if f.dotAll then .all else .notLineFeed)

def Flags.literal (f : Flags) (c : Char) : Term := .set (f.apply (.single c))

def Escape.term (f : Flags) : Escape → Term
  | .literal c => f.literal c
  | .set s => .set s
  | .place p => .place p

/-- The items of a sequence, last one first. -/
def sequence : List Term → Term
  | [] => .blank
  | [t] => t
  | items => .sequence items.reverse

/-- The alternatives of a choice, last one first. -/
def choice : List Term → Term
  | [] => .blank
  | [t] => t
  | alternatives => .choice alternatives.reverse

/-- Reads alternatives up to the end of the text or of their group. `done` holds the alternatives
before the current one and `items` the items of the current one, both last one first. -/
def readChoice : Nat → Nat → Flags → List Term → List Term → List Char →
    Option (Term × List Char)
  | 0, _, _, _, _, _ => none
  | fuel + 1, room, f, done, items, cs =>
    let push (t : Term) (rest : List Char) := readChoice fuel room f done (t :: items) rest
    let repeated (least : Nat) (most : Option Nat) (rest : List Char) :=
      let (eager, rest) := readEagerness f rest
      match repeatLast least most eager items with
      | none => none
      | some items => readChoice fuel room f done items rest
    match cs with
    | [] => some (choice (sequence items :: done), [])
    | ')' :: rest => some (choice (sequence items :: done), ')' :: rest)
    | '|' :: rest => readChoice fuel room f (sequence items :: done) [] rest
    | '(' :: rest =>
      match readGroupOpening f rest, room with
      | none, _ => none
      | some (.flags g, rest), _ => readChoice fuel room g done (.flags :: items) rest
      | some (.group _ _, _), 0 => none
      | some (.group g captures, rest), room + 1 =>
        match readChoice fuel room g [] [] rest with
        | some (t, ')' :: rest) =>
          readChoice fuel (room + 1) f done (.group captures t :: items) rest
        | _ => none
    | '[' :: rest =>
      match readClass f fuel room rest with
      | some (t, rest) => push (.bracket t.set t.depth) rest
      | none => none
    | '*' :: rest => repeated 0 none rest
    | '+' :: rest => repeated 1 none rest
    | '?' :: rest => repeated 0 (some 1) rest
    | '{' :: rest =>
      match readCounts rest with
      | some ((least, most), rest) => repeated least most rest
      | none => none
    | '\\' :: rest =>
      match readEscape rest with
      | some (e, rest) => push (e.term f) rest
      | none => none
    | '.' :: rest => push f.point rest
    | '^' :: rest => push f.lineStart rest
    | '$' :: rest => push f.lineEnd rest
    | c :: rest => push (f.literal c) rest

/-- Reads a term that makes up a whole text. -/
def Term.ofText? (room : Nat) (text : String) : Option Term :=
  let cs := text.toList
  match readChoice (cs.length + 1) room {} [] [] cs with
  | some (t, []) => some t
  | _ => none

end BuildChain.Pattern
