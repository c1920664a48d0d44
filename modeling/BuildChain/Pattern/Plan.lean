import BuildChain.Pattern.ByteTree
import BuildChain.Pattern.Normal

/-!
# Plans of automata

An automaton reads the bytes of a text one by one, forward or backward. A plan says what its states
are, in the order in which they are drawn. Most parts of a pattern take a number of states that does
not depend on where they stand; only sets beyond ASCII are planned as they are, since how many
states they take depends on the states before them.
-/

namespace BuildChain.Pattern

open Text

inductive Direction
  | forward
  | backward

inductive Plan
  /-- A number of states and of bytes that they weigh beyond the first thirty-two of each. -/
  | states (n bytes : Nat)
  | set (ranges : Ranges)
  | seq (a b : Plan)
  | copies (n : Nat) (a : Plan)

namespace Plan

def append : Plan → Plan → Plan
  | states m a, states n b => states (m + n) (a + b)
  | a, b => seq a b

instance : Append Plan := ⟨append⟩

def times (n : Nat) : Plan → Plan
  | states m a => states (n * m) (n * a)
  | a => copies n a

/-- A state with ways to two next ones. -/
def fork : Plan := states 1 8

/-- A part that may be missing: a fork leads to it or past it. -/
def option (a : Plan) : Plan := fork ++ a ++ states 1 0

/-- A part any number of times. If it is known to go past a character, one fork leads to it again
and again; else a fork before it and one behind it lead to a common end. -/
def star (consumes : Bool) (a : Plan) : Plan := if consumes then fork ++ a else a ++ states 3 16

/-- A part from `least` to `most` times: every further copy may be missing, and there is one end for
all of them. -/
def between (least most : Nat) (a : Plan) : Plan :=
  let first := if least = 0 then states 1 0 else a.times least
  if least = most then first else first ++ states 1 0 ++ (fork ++ a).times (most - least)

def repeated (consumes : Bool) (least : Nat) (most : Option Nat) (a : Plan) : Plan :=
  match least, most with
  | 0, none => a.star consumes
  | least, none => a.times least ++ fork
  | 0, some 1 => a.option
  | least, some most => a.between least most

/-- ASCII ranges are branches of one state, which weigh eight bytes each, as all branches do. -/
def ofSet (ranges : Ranges) : Plan :=
  if ranges.all fun r => r.2 < 128 then states 2 (8 * ranges.length) else set ranges

/-- The tree of texts, each from its first byte or from its last. -/
def ofTexts (d : Direction) (texts : List (List Nat)) : Plan :=
  let tree : ByteTree :=
    match d with
    | .forward => .ofTexts texts
    | .backward => .ofTexts (texts.map List.reverse)
  states tree.size.1 tree.size.2

end Plan

namespace Normal

/-- The bytes of alternatives that all are texts. -/
def texts? (alternatives : List Normal) : Option (List (List Nat)) :=
  alternatives.mapM fun a =>
    match a with
    | text cs => some (utf8Bytes cs)
    | _ => none

mutual

def plan (d : Direction) : Normal → Plan
  | empty | place _ => .states 1 0
  | text cs => .states (utf8Length cs) 0
  | set ranges => .ofSet ranges
  | capture a =>
    match d with
    | .forward => .states 1 0 ++ a.plan d ++ .states 1 0
    | .backward => a.plan d
  | many a least most _ => (a.plan d).repeated a.consumes least most
  | sequence items => planItems d items
  | choice alternatives =>
    match texts? alternatives with
    | some texts => .ofTexts d texts
    | none => planAlternatives d 0 alternatives

/-- The items of a sequence come in the order of reading. -/
def planItems (d : Direction) : List Normal → Plan
  | [] => .states 0 0
  | a :: as =>
    match d with
    | .forward => a.plan d ++ planItems d as
    | .backward => planItems d as ++ a.plan d

/-- There is a way of four bytes to each alternative. The start and the end of the choice are drawn
when two alternatives are. -/
def planAlternatives (d : Direction) (drawn : Nat) : List Normal → Plan
  | [] => .states 0 0
  | a :: as =>
    a.plan d ++ .states (if drawn = 1 then 2 else 0) 4 ++ planAlternatives d (drawn + 1) as

end

end Normal

namespace Term

/-- Whether the place where a reading starts is given by the term. -/
def isAnchored (d : Direction) (t : Term) : Bool :=
  match d with
  | .forward => t.opensText
  | .backward => t.closesText

/-- The plan for a term. If a reading may start anywhere, there are states that lead to it; the
whole is a capture, and there is a state for its end. -/
def plan (d : Direction) (t : Term) : Plan :=
  (if t.isAnchored d then .states 1 0 else .states 3 16) ++ (Normal.capture t.normal).plan d ++
    .states 1 0

end Term

end BuildChain.Pattern
