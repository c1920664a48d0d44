import BuildChain.Pattern.Automaton
import BuildChain.Pattern.Reading

/-!
# Naming patterns

A naming pattern keeps the text it was written in beside the expression that the text stands for. A
text that nests too deep or whose automaton is too large is no pattern. The three patterns of the
standard rules are given as expressions outright.
-/

namespace BuildChain

open Pattern

structure NamePattern where
  text : String
  regex : Regex
deriving DecidableEq

namespace NamePattern

def maxDepth : Nat := 250

def ofText? (text : String) : Option NamePattern :=
  (Term.ofText? maxDepth text).bind fun t =>
    if t.depth ≤ maxDepth && t.isSmall then some ⟨text, t.regex⟩ else none

/-- Whether some part of a name fits the pattern. -/
def fits (p : NamePattern) (name : String) : Bool := p.regex.occursIn name

/-! ## Standard patterns -/

def oneOf (sets : List CharSet) : Regex := .char (CharSet.unionAll sets)

def literal (s : String) : Regex := .seqAll (s.toList.map fun c => .char (.single c))

/-- From the start of the text to its end. -/
def whole (items : List Regex) : Regex :=
  .seqAll (.place .textStart :: (items ++ [.place .textEnd]))

/-- The characters of an owner or a repository. -/
def repositoryChar : CharSet :=
  CharSet.unionAll [.single '-', .single '.', .single '_', .digit, .lower, .upper]

def fork : NamePattern :=
  ⟨"^[A-Za-z0-9_.-]+/[A-Za-z0-9_.-]+$",
    whole [.plus (.char repositoryChar), .char (.single '/'), .plus (.char repositoryChar)]⟩

def featureBranch : NamePattern :=
  ⟨"^feature/[A-Za-z0-9][A-Za-z0-9._-]*$",
    whole [literal "feature/", oneOf [.digit, .lower, .upper],
      .star (oneOf [.single '-', .single '_', .single '.', .digit, .lower, .upper])]⟩

def projectName : NamePattern :=
  ⟨"^[a-z0-9_]+$", whole [.plus (oneOf [.single '_', .digit, .lower])]⟩

end NamePattern

end BuildChain
