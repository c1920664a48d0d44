import BuildChain.Pattern.Regex

/-!
# What a pattern says

A term is a pattern as it is written: with its groups, its brackets and its repetition marks. It
stands for a regular expression. Its depth counts the terms of more than one part that lie inside
one another.
-/

namespace BuildChain.Pattern

inductive Term
  | blank
  /-- Flags for what follows. -/
  | flags
  | set (s : CharSet)
  /-- A class in brackets, with its depth. -/
  | bracket (s : CharSet) (depth : Nat)
  | place (p : Place)
  | group (captures : Bool) (a : Term)
  /-- A repetition, which is eager if it looks for many copies first. -/
  | many (a : Term) (least : Nat) (most : Option Nat) (eager : Bool)
  | sequence (items : List Term)
  | choice (alternatives : List Term)

namespace Term

/-! ## Depth -/

mutual

def depth : Term → Nat
  | blank | flags | set _ | place _ => 0
  | bracket _ depth => depth
  | group _ a => a.depth + 1
  | many a _ _ _ => a.depth + 1
  | sequence items => greatestDepth items + 1
  | choice alternatives => greatestDepth alternatives + 1

def greatestDepth : List Term → Nat
  | [] => 0
  | t :: ts => max t.depth (greatestDepth ts)

end

/-! ## Length of the accepted texts -/

mutual

/-- Whether the term accepts no character, only places. -/
def isVoid : Term → Bool
  | blank | flags | place _ => true
  | set _ | bracket _ _ => false
  | group _ a => a.isVoid
  | many a _ most _ => a.isVoid || most == some 0
  | sequence items => allVoid items
  | choice alternatives => allVoid alternatives

def allVoid : List Term → Bool
  | [] => true
  | t :: ts => t.isVoid && allVoid ts

end

/-- How often a term is repeated: to repeat places alone more than once asks for nothing new. -/
def counts (a : Term) (least : Nat) (most : Option Nat) : Nat × Option Nat :=
  if a.isVoid then (min least 1, some (min (most.getD 1) 1)) else (least, most)

/-! ## Ends of the text -/

mutual

/-- Whether what the term accepts lies at the start of the text, as its first places say. -/
def opensText : Term → Bool
  | blank | flags | set _ | bracket _ _ => false
  | place p => p == .textStart
  | group _ a => a.opensText
  | many a least _ _ => 0 < least && a.opensText
  | sequence items => someOpens items
  | choice alternatives => allOpen alternatives

/-- The places before the first character count. -/
def someOpens : List Term → Bool
  | [] => false
  | t :: ts => t.opensText || (t.isVoid && someOpens ts)

def allOpen : List Term → Bool
  | [] => true
  | t :: ts => t.opensText && allOpen ts

end

mutual

/-- Whether what the term accepts lies at the end of the text, as its last places say. -/
def closesText : Term → Bool
  | blank | flags | set _ | bracket _ _ => false
  | place p => p == .textEnd
  | group _ a => a.closesText
  | many a least _ _ => 0 < least && a.closesText
  | sequence items => someCloses false items
  | choice alternatives => allClose alternatives

/-- The places after the last character count; `closed` says whether there is one so far. -/
def someCloses (closed : Bool) : List Term → Bool
  | [] => closed
  | t :: ts => someCloses (t.closesText || (t.isVoid && closed)) ts

def allClose : List Term → Bool
  | [] => true
  | t :: ts => t.closesText && allClose ts

end

/-! ## Meaning -/

mutual

def regex : Term → Regex
  | blank | flags => .empty
  | set s | bracket s _ => .char s
  | place p => .place p
  | group _ a => a.regex
  | many a least most _ =>
    let n := a.counts least most
    a.regex.repeated n.1 n.2
  | sequence items => .seqAll (regexes items)
  | choice alternatives =>
    match regexes alternatives with
    | [] => .empty
    | r :: rs => .altAll r rs

def regexes : List Term → List Regex
  | [] => []
  | t :: ts => t.regex :: regexes ts

end

end Term

end BuildChain.Pattern
