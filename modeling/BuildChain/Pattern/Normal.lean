import BuildChain.Pattern.Term

/-!
# Normal forms of patterns

In its normal form a pattern has no part that another one of the same meaning makes superfluous:
nothing is repeated once, no sequence lies in a sequence and no choice in a choice, characters side
by side are one text, alternatives that are characters or sets are one set, and what all
alternatives begin with stands before the choice.
-/

namespace BuildChain.Pattern

open Text

inductive Normal
  | empty
  | text (cs : List Char)
  /-- The characters of some ranges, which are none or more than one. -/
  | set (ranges : Ranges)
  | place (p : Place)
  | capture (a : Normal)
  | many (a : Normal) (least : Nat) (most : Option Nat) (eager : Bool)
  | sequence (items : List Normal)
  | choice (alternatives : List Normal)

namespace Normal

/-! ## Comparison -/

mutual

/-- Whether two forms are the same. A capture has a number of its own, so no two captures are. -/
def agrees : Normal → Normal → Bool
  | empty, empty => true
  | text s, text t => s == t
  | set r, set s => r == s
  | place p, place q => p == q
  | many a l m e, many b l' m' e' => l == l' && m == m' && e == e' && a.agrees b
  | sequence as, sequence bs => allAgree as bs
  | choice as, choice bs => allAgree as bs
  | _, _ => false

def allAgree : List Normal → List Normal → Bool
  | [], [] => true
  | a :: as, b :: bs => a.agrees b && allAgree as bs
  | _, _ => false

end

/-- The number of items that two lists begin with alike. -/
def sharedLength : List Normal → List Normal → Nat
  | a :: as, b :: bs => if a.agrees b then sharedLength as bs + 1 else 0
  | _, _ => 0

/-! ## Sets -/

/-- The characters of ranges in normal form. -/
def ofRanges : Ranges → Normal
  | [(a, b)] => if a = b then text [Char.ofNat a] else set [(a, b)]
  | ranges => set ranges

def char? : Normal → Option Nat
  | text [c] => some c.toNat
  | _ => none

def ranges? : Normal → Option Ranges
  | set ranges => some ranges
  | _ => none

/-- Alternatives as one set, if all are characters or all are sets. -/
def union? (alternatives : List Normal) : Option Ranges :=
  match alternatives.mapM char? with
  | some points => some (.normal (.singles points))
  | none => (alternatives.mapM ranges?).map fun sets => .normal sets.flatten

/-! ## Sequences -/

/-- What a form adds to a sequence that it is put into. -/
def items : Normal → List Normal
  | empty => []
  | sequence items => items
  | a => [a]

/-- An item in front of others, with texts side by side joined. -/
def cons : Normal → List Normal → List Normal
  | text s, text t :: rest => text (s ++ t) :: rest
  | a, rest => a :: rest

def sequenceOf (parts : List Normal) : Normal :=
  match (parts.flatMap items).foldr cons [] with
  | [] => empty
  | [a] => a
  | as => sequence as

/-! ## Choices -/

/-- What a form adds to a choice that it is put into. -/
def alternatives : Normal → List Normal
  | choice alternatives => alternatives
  | a => [a]

/-- A choice as it is, or as one set. -/
def choiceAmong (parts : List Normal) : Normal :=
  match parts.flatMap alternatives with
  | [] => set []
  | [a] => a
  | as =>
    match union? as with
    | some ranges => ofRanges ranges
    | none => choice as

/-- The items that all alternatives begin with, if each of them is a sequence. -/
def sharedItems : List Normal → List Normal
  | sequence first :: rest => first.take (rest.foldl (shared first) first.length)
  | _ => []
where
  /-- The number of items, `n` at most, that one more alternative begins with too. -/
  shared (first : List Normal) (n : Nat) : Normal → Nat
    | sequence items => min n (sharedLength first items)
    | _ => 0

def choiceOf (parts : List Normal) : Normal :=
  match choiceAmong parts with
  | choice as =>
    match sharedItems as with
    | [] => choice as
    | first =>
      sequenceOf (first ++ [choiceAmong (as.map fun a => sequenceOf (a.items.drop first.length))])
  | a => a

/-! ## Repetition -/

def manyOf (a : Normal) (least : Nat) (most : Option Nat) (eager : Bool) : Normal :=
  match least, most with
  | 0, some 0 => empty
  | 1, some 1 => a
  | _, _ => many a least most eager

end Normal

/-! ## The form of a term -/

namespace Term

mutual

def normal : Term → Normal
  | blank | flags => .empty
  | set s | bracket s _ => .ofRanges s.ranges
  | place p => .place p
  | group captures a => if captures then .capture a.normal else a.normal
  | many a least most eager =>
    let n := a.counts least most
    .manyOf a.normal n.1 n.2 eager
  | sequence items => .sequenceOf (normals items)
  | choice alternatives => .choiceOf (normals alternatives)

def normals : List Term → List Normal
  | [] => []
  | t :: ts => t.normal :: normals ts

end

end Term

/-! ## Length of the accepted texts -/

namespace Normal

mutual

/-- The number of characters in the shortest accepted text, known if no part is an empty set. -/
def shortest? : Normal → Option Nat
  | empty | place _ => some 0
  | text cs => some cs.length
  | set ranges => if ranges.isEmpty then none else some 1
  | capture a => a.shortest?
  | many a least _ _ => a.shortest?.map (least * ·)
  | sequence items => totalShortest? items
  | choice alternatives => leastShortest? alternatives

def totalShortest? : List Normal → Option Nat
  | [] => some 0
  | a :: as => a.shortest?.bind fun n => (totalShortest? as).map (n + ·)

def leastShortest? : List Normal → Option Nat
  | [] => none
  | [a] => a.shortest?
  | a :: as => a.shortest?.bind fun n => (leastShortest? as).map (min n ·)

end

/-- Whether a reading is known to go past a character. -/
def consumes (a : Normal) : Bool := a.shortest?.any (0 < ·)

end Normal

end BuildChain.Pattern
