import BuildChain.Pattern.CharSet

/-!
# Regular expressions with places

Besides sets of characters an expression can ask for a place: the start or the end of the text or of
a line, or the edge of a word. Whether a place is right depends on the characters before and after
it alone.

A text is read with marks: a set of characters is marked when it has just read a character, and all
readings of the text so far go on together. One more character moves the marks. Parts without a mark
that no reading enters are passed over, so a step costs no more than the readings that go on.
-/

namespace BuildChain.Pattern

/-! ## Places -/

inductive Place
  | textStart
  | textEnd
  | lineStart
  | lineEnd
  | wordEdge
  | wordInside
  | wordStart
  | wordEnd
deriving DecidableEq

namespace Place

def isWordAt (c : Option Char) : Bool := c.any Text.isWord

/-- Whether the place between two neighbours is right; a missing neighbour is an end of the text. -/
def isAt : Place → Option Char → Option Char → Bool
  | textStart, before, _ => before.isNone
  | textEnd, _, after => after.isNone
  | lineStart, before, _ => before.isNone || before == some '\n'
  | lineEnd, _, after => after.isNone || after == some '\n'
  | wordEdge, before, after => isWordAt before != isWordAt after
  | wordInside, before, after => isWordAt before == isWordAt after
  | wordStart, before, after => !isWordAt before && isWordAt after
  | wordEnd, before, after => isWordAt before && !isWordAt after

end Place

/-! ## Expressions -/

inductive Regex
  | empty
  | place (p : Place)
  | char (s : CharSet)
  | seq (a b : Regex)
  | alt (a b : Regex)
  /-- Once or more. -/
  | plus (a : Regex)
deriving DecidableEq

/-! ## Marks -/

/-- The marks on the sets of an expression: those of a sequence or choice are the marks of its two
parts, and those of a repetition are the marks of what it repeats. -/
inductive Marks
  | none
  | leaf
  | node (a b : Marks)
deriving DecidableEq

namespace Marks

def isNone : Marks → Bool
  | none => true
  | _ => false

def isLeaf : Marks → Bool
  | leaf => true
  | _ => false

def left : Marks → Marks
  | node a _ => a
  | _ => none

def right : Marks → Marks
  | node _ b => b
  | _ => none

def join : Marks → Marks → Marks
  | none, none => none
  | a, b => node a b

theorem eq_none_of_isNone {m : Marks} (h : m.isNone) : m = none := by
  cases m <;> simp_all [isNone]

@[simp] theorem left_join (a b : Marks) : (join a b).left = a := by
  cases a <;> cases b <;> rfl

@[simp] theorem right_join (a b : Marks) : (join a b).right = b := by
  cases a <;> cases b <;> rfl

end Marks

/-! ## Reading -/

namespace Regex

/-- Whether a reading can end at a place, which is one that goes on in the expression or, if it is
entered there, one that starts at the place. -/
def ends (before after : Option Char) : Regex → Marks → Bool → Bool
  | empty, _, entered => entered
  | place p, _, entered => entered && p.isAt before after
  | char _, marks, _ => marks.isLeaf
  | seq a b, marks, entered =>
    if marks.isNone && !entered then false
    else b.ends before after marks.right (a.ends before after marks.left entered)
  | alt a b, marks, entered =>
    if marks.isNone && !entered then false
    else a.ends before after marks.left entered || b.ends before after marks.right entered
  | plus a, marks, entered => a.ends before after marks entered

/-- The marks after one more character. What is repeated is entered again where it ends. -/
def advance (before : Option Char) (c : Char) : Regex → Marks → Bool → Marks
  | empty, _, _ => .none
  | place _, _, _ => .none
  | char s, _, entered => if entered && s.has c then .leaf else .none
  | seq a b, marks, entered =>
    if marks.isNone && !entered then .none
    else .join (a.advance before c marks.left entered)
      (b.advance before c marks.right (a.ends before (some c) marks.left entered))
  | alt a b, marks, entered =>
    if marks.isNone && !entered then .none
    else .join (a.advance before c marks.left entered) (b.advance before c marks.right entered)
  | plus a, marks, entered =>
    a.advance before c marks (entered || a.ends before (some c) marks entered)

theorem ends_none (before after : Option Char) (r : Regex) :
    r.ends before after .none false = false := by
  induction r with
  | empty | place | char | seq | alt => simp [ends, Marks.isNone, Marks.isLeaf]
  | plus a ih => simpa [ends] using ih

theorem advance_none (before : Option Char) (c : Char) (r : Regex) :
    r.advance before c .none false = .none := by
  induction r with
  | empty | place | char | seq | alt => simp [advance, Marks.isNone]
  | plus a ih => simpa [advance, ends_none] using ih

/-- What is passed over cannot end, so a sequence ends where its second part does. -/
theorem ends_seq (before after : Option Char) (a b : Regex) (marks : Marks) (entered : Bool) :
    (seq a b).ends before after marks entered =
      b.ends before after marks.right (a.ends before after marks.left entered) := by
  rw [ends]
  split
  · next h =>
    simp only [Bool.and_eq_true, Bool.not_eq_true'] at h
    simp [Marks.eq_none_of_isNone h.1, h.2, Marks.left, Marks.right, ends_none]
  · rfl

theorem ends_alt (before after : Option Char) (a b : Regex) (marks : Marks) (entered : Bool) :
    (alt a b).ends before after marks entered =
      (a.ends before after marks.left entered || b.ends before after marks.right entered) := by
  rw [ends]
  split
  · next h =>
    simp only [Bool.and_eq_true, Bool.not_eq_true'] at h
    simp [Marks.eq_none_of_isNone h.1, h.2, Marks.left, Marks.right, ends_none]
  · rfl

theorem advance_seq (before : Option Char) (c : Char) (a b : Regex) (marks : Marks)
    (entered : Bool) :
    (seq a b).advance before c marks entered =
      .join (a.advance before c marks.left entered)
        (b.advance before c marks.right (a.ends before (some c) marks.left entered)) := by
  rw [advance]
  split
  · next h =>
    simp only [Bool.and_eq_true, Bool.not_eq_true'] at h
    simp [Marks.eq_none_of_isNone h.1, h.2, Marks.left, Marks.right, ends_none, advance_none,
      Marks.join]
  · rfl

theorem advance_alt (before : Option Char) (c : Char) (a b : Regex) (marks : Marks)
    (entered : Bool) :
    (alt a b).advance before c marks entered =
      .join (a.advance before c marks.left entered) (b.advance before c marks.right entered) := by
  rw [advance]
  split
  · next h =>
    simp only [Bool.and_eq_true, Bool.not_eq_true'] at h
    simp [Marks.eq_none_of_isNone h.1, h.2, Marks.left, Marks.right, advance_none, Marks.join]
  · rfl

/-- Whether a reading ends at some place of a text that follows a given character; the expression is
entered at every place. -/
def search (r : Regex) (before : Option Char) (marks : Marks) : List Char → Bool
  | [] => r.ends before none marks true
  | c :: cs =>
    r.ends before (some c) marks true ||
      r.search (some c) (r.advance before c marks true) cs

/-- Whether the expression accepts some part of a text. -/
def occursIn (r : Regex) (s : String) : Bool := r.search none .none s.toList

/-! ## Sequences, choices and repetition -/

def seqAll : List Regex → Regex
  | [] => empty
  | [r] => r
  | r :: rs => seq r (seqAll rs)

/-- A choice among alternatives, of which there is at least one. -/
def altAll (r : Regex) : List Regex → Regex
  | [] => r
  | s :: rs => alt r (altAll s rs)

def opt (a : Regex) : Regex := alt a empty

def star (a : Regex) : Regex := opt (plus a)

/-- A number of times, as two halves that are alike. -/
def power (a : Regex) (n : Nat) : Regex :=
  if n = 0 then empty
  else if n = 1 then a
  else
    let half := power a (n / 2)
    if n % 2 = 0 then seq half half else seq a (seq half half)
termination_by n

/-- At least `least` times, and at most `most` times if that is given. -/
def repeated (a : Regex) (least : Nat) (most : Option Nat) : Regex :=
  match least, most with
  | 0, none => star a
  | n + 1, none => seq (power a n) (plus a)
  | _, some most => seq (power a least) (power (opt a) (most - least))

end Regex

end BuildChain.Pattern
